import Mathlib.Data.Int.Notation

namespace TalaPala

abbrev Instant := ℤ

abbrev Date := ℤ

end TalaPala
