import Ascendance.Models.ErrorSerialization.Reading

/-!
# The fields of a node

Records, labels and texts are cut by themselves; each of them says whether it was, and the
header of a node collects the answers.
-/

namespace Ascendance.ErrorSerialization

open Ascendance.Core

variable {ι : Type*}

section

variable (w : World ι) (moment : Moment) (object : ι) (maxEntries : ℕ)

end

section

variable (w : World ι) (place : Place) (value : Value ι)

end

section

variable (w : World ι) (place : Place) (object : ι)

end

end Ascendance.ErrorSerialization
