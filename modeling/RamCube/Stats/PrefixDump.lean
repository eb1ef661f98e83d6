import RamCube.Lib.CString
import RamCube.Stats.Prefixes

/-! # The text of the prefix statistics (stats.c)

`stats_prefix_dump` allocates room for the worst case first: every counter with twenty digits.
The bound holds as long as the sizes and the position, which are of type `int`, do. -/
namespace RamCube

namespace PrefixTable

variable (t : PrefixTable)

end PrefixTable

section

variable {t : PrefixTable} {es : List PrefixEntry} {n : Nat}

namespace PrefixTable

end PrefixTable
end

end RamCube
