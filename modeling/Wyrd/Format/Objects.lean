import Wyrd.Format.TreeCodec
import Wyrd.Lib.Effect

/-! # Object stores

The contract of the storage seam: objects are immutable and addressed by the hash of
their bytes, an insert says where the bytes are found, and no two objects share an
identifier. A store may fail at any time; it then still holds all it held.
-/

namespace Wyrd

def Grows (before after : ContentId → Option Bytes) : Prop :=
  ∀ id bytes, before id = some bytes → after id = some bytes

lemma Grows.refl (held : ContentId → Option Bytes) : Grows held held := fun _ _ hf => hf

lemma Grows.trans (early : Grows first second) (late : Grows second third) : Grows first third :=
  fun id bytes hf => late id bytes (early id bytes hf)

structure ObjectStore (derive : ObjectKind → Bytes → ContentId) (σ ε : Type) where
  /-- What a state of the store holds. -/
  held : σ → ContentId → Option Bytes
  get : σ → ContentId → Except ε (Option Bytes)
  insert : ObjectKind → Bytes → Effect σ ε ContentId
  get_held : ∀ state id found, get state id = .ok found → found = held state id
  insert_held : ∀ kind bytes state, (insert kind bytes).Ends state fun outcome after =>
    Grows (held state) (held after) ∧
      ∀ id, outcome = .ok id → id = derive kind bytes ∧ held after id = some bytes

def heldTree (held : ContentId → Option Bytes) (id : ContentId) : Option Tree :=
  (held id).bind fun bytes => (Tree.decode bytes).toOption

lemma Grows.tree {before after} (grow : Grows before after) {id tree}
    (hf : heldTree before id = some tree) : heldTree after id = some tree := by
  obtain ⟨bytes, hh, hd⟩ := Option.bind_eq_some_iff.mp hf
  exact Option.bind_eq_some_iff.mpr ⟨bytes, grow id bytes hh, hd⟩

abbrev MemoryObjects := List (ContentId × Bytes)

namespace MemoryObjects

def held (objects : MemoryObjects) (id : ContentId) : Option Bytes :=
  (objects.find? (·.1 = id)).map Prod.snd

/-- Insert under the derived identifier. Bytes of another object of the same identifier,
    which are taken not to exist, are refused. -/
def insert (derive : ObjectKind → Bytes → ContentId) (kind : ObjectKind) (bytes : Bytes) :
    Effect MemoryObjects Unit ContentId := fun objects =>
  match objects.held (derive kind bytes) with
  | none => ((derive kind bytes, bytes) :: objects, .ok (derive kind bytes))
  | some known =>
    if known = bytes then (objects, .ok (derive kind bytes)) else (objects, .error ())

def store (derive : ObjectKind → Bytes → ContentId) : ObjectStore derive MemoryObjects Unit where
  held := held
  get objects id := .ok (objects.held id)
  insert := insert derive
  get_held _ _ _ found := (Except.ok.inj found).symm
  insert_held kind bytes objects := by
    unfold Effect.Ends insert
    split
    · next missing =>
      refine ⟨fun id known found => ?_, fun id done => ?_⟩
      · have different : derive kind bytes ≠ id := by
          rintro rfl
          exact absurd (missing.symm.trans found) (by simp)
        rw [held, List.find?_cons_of_neg (by simpa using different)]
        exact found
      · cases done
        exact ⟨rfl, by simp [held]⟩
    · next known found =>
      split_ifs with same
      · refine ⟨Grows.refl _, fun id done => ?_⟩
        cases done
        exact ⟨rfl, same ▸ found⟩
      · exact ⟨Grows.refl _, fun id done => nomatch done⟩

end MemoryObjects

end Wyrd
