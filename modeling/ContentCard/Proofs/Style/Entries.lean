import ContentCard.Proofs.Json.Members
import ContentCard.Style.Declarations

/-!
# Style entries that agree

Declarations whose entries agree off some keys give the same answer under every other key.
-/

namespace ContentCard.Declarations

/-- The same entries, those under some keys aside. -/
def AgreeOff (keys : List String) (d e : Declarations) : Prop :=
  Json.Members.AgreeOff keys d.entries e.entries

namespace AgreeOff

variable {keys : List String} {d e : Declarations} {key : String}

theorem float? (h : AgreeOff keys d e) (hk : key ∉ keys) : d.float? key = e.float? key := by
  rw [Declarations.float?, Declarations.float?, number?, number?, get?, get?, h key hk]

theorem string? (h : AgreeOff keys d e) (hk : key ∉ keys) : d.string? key = e.string? key := by
  rw [Declarations.string?, Declarations.string?, get?, get?, h key hk]

theorem bool? (h : AgreeOff keys d e) (hk : key ∉ keys) : d.bool? key = e.bool? key := by
  rw [Declarations.bool?, Declarations.bool?, get?, get?, h key hk]

end AgreeOff

end ContentCard.Declarations
