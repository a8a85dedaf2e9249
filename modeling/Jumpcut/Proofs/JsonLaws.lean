import Jumpcut.Json.Reader
import Jumpcut.Json.Writer
import Jumpcut.Proofs.OutcomeLaws

namespace Jumpcut.Json

mutual

def same : Json → Json → Bool
  | .null, .null => true
  | .bool a, .bool b => a == b
  | .int a, .int b => a == b
  | .float a, .float b => decide (a = b)
  | .str a, .str b => a == b
  | .arr as, .arr bs => sameItems as bs
  | .obj as, .obj bs => sameMembers as bs
  | _, _ => false

def sameItems : List Json → List Json → Bool
  | [], [] => true
  | a :: as, b :: bs => same a b && sameItems as bs
  | _, _ => false

def sameMembers : List (String × Json) → List (String × Json) → Bool
  | [], [] => true
  | (k, a) :: as, (l, b) :: bs => k == l && same a b && sameMembers as bs
  | _, _ => false

end

mutual

theorem eq_of_same : (a b : Json) → same a b = true → a = b
  | .null, .null, _ => rfl
  | .bool _, .bool _, h | .int _, .int _, h | .float _, .float _, h | .str _, .str _, h => by
    simpa [same] using h
  | .arr as, .arr bs, h => by
    rw [same] at h
    rw [eq_of_sameItems as bs h]
  | .obj as, .obj bs, h => by
    rw [same] at h
    rw [eq_of_sameMembers as bs h]

theorem eq_of_sameItems : (as bs : List Json) → sameItems as bs = true → as = bs
  | [], [], _ => rfl
  | a :: as, b :: bs, h => by
    rw [sameItems, Bool.and_eq_true] at h
    rw [eq_of_same a b h.1, eq_of_sameItems as bs h.2]

theorem eq_of_sameMembers : (as bs : List (String × Json)) → sameMembers as bs = true → as = bs
  | [], [], _ => rfl
  | (k, a) :: as, (l, b) :: bs, h => by
    rw [sameMembers, Bool.and_eq_true, Bool.and_eq_true, beq_iff_eq] at h
    rw [h.1.1, eq_of_same a b h.1.2, eq_of_sameMembers as bs h.2]

end

mutual

theorem same_self : (a : Json) → same a a = true
  | .null => rfl
  | .bool _ | .int _ | .float _ | .str _ => by simp [same]
  | .arr as => by rw [same, sameItems_self as]
  | .obj as => by rw [same, sameMembers_self as]

theorem sameItems_self : (as : List Json) → sameItems as as = true
  | [] => rfl
  | a :: as => by rw [sameItems, same_self a, sameItems_self as]; rfl

theorem sameMembers_self : (as : List (String × Json)) → sameMembers as as = true
  | [] => rfl
  | (k, a) :: as => by rw [sameMembers, same_self a, sameMembers_self as, beq_self_eq_true]; rfl

end

instance : DecidableEq Json := fun a b =>
  decidable_of_iff (same a b = true) ⟨eq_of_same a b, fun h => h ▸ same_self a⟩

def FoundIn (text : String) (j : Json) : Prop :=
  parse (String.ofList (Text.unifyLines text.toList)) = .ok j

theorem foundIn_iff (text : String) (j : Json) :
    FoundIn text j ↔ (whole (Text.unifyLines text.toList)).toOption = some j := by
  rw [FoundIn, parse, String.toList_ofList]
  cases whole (Text.unifyLines text.toList) with
  | ok v => simp [Except.toOption]
  | error f => cases f <;> simp [Except.toOption]

instance (text : String) (j : Json) : Decidable (FoundIn text j) :=
  decidable_of_iff _ (foundIn_iff text j).symm

def Reloads (j : Json) : Prop :=
  parse (String.ofList (Text.unifyLines (j.pretty 2 0).toList)) = .ok j

theorem reloads_iff (j : Json) :
    j.Reloads ↔ (whole (Text.unifyLines (j.pretty 2 0).toList)).toOption = some j :=
  foundIn_iff _ j

instance (j : Json) : Decidable j.Reloads := decidable_of_iff _ (reloads_iff j).symm

end Jumpcut.Json
