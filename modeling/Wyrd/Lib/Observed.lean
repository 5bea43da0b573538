import Mathlib

/-! # Content-addressed observed sets

A finite set of documents, each held under the key it computes for itself.
The documents are kept in strictly ascending key order, so one set has one
representation: the order in which documents arrive leaves no trace, and the
sorted key sequence is simply the keys of the list.
-/

namespace Wyrd

open List

/-- Documents in strictly ascending order of the key each one computes. -/
structure Observed {κ δ : Type} [LinearOrder κ] (key : δ → κ) where
  docs : List δ
  ascending : docs.Pairwise (fun a b => key a < key b)

namespace Observed

variable {κ δ : Type} [LinearOrder κ] {key : δ → κ}

def empty : Observed key := ⟨[], .nil⟩

instance [DecidableEq δ] : DecidableEq (Observed key) := fun a b =>
  decidable_of_iff (a.docs = b.docs) (by cases a; cases b; simp)

def lookup (set : Observed key) (k : κ) : Option δ :=
  set.docs.find? (fun d => decide (key d = k))

def ids (set : Observed key) : List κ := set.docs.map key

/-- Place a document at its key, replacing a document already there. -/
def place (key : δ → κ) (doc : δ) : List δ → List δ
  | [] => [doc]
  | head :: rest =>
    if key doc < key head then doc :: head :: rest
    else if key doc = key head then doc :: rest
    else head :: place key doc rest

variable {doc : δ} {docs : List δ}

lemma mem_place (rises : docs.Pairwise (fun a b => key a < key b)) :
    other ∈ place key doc docs ↔ other = doc ∨ other ∈ docs ∧ key other ≠ key doc := by
  induction docs with
  | nil => simp [place]
  | cons head rest ih =>
    obtain ⟨first, hl⟩ := pairwise_cons.mp rises
    simp only [place]
    split_ifs with hb hs
    · have apart : ∀ d ∈ head :: rest, key d ≠ key doc := by
        intro d hm
        rcases mem_cons.mp hm with rfl | hm
        · exact hb.ne'
        · exact (hb.trans (first d hm)).ne'
      rw [mem_cons]
      exact or_congr_right ⟨fun hm => ⟨hm, apart other hm⟩, And.left⟩
    · have apart : ∀ d ∈ rest, key d ≠ key doc := fun d hm => hs ▸ (first d hm).ne'
      rw [mem_cons, mem_cons]
      constructor
      · exact fun hm => hm.imp id (fun inRest => ⟨.inr inRest, apart other inRest⟩)
      · rintro (hs' | ⟨rfl | inRest, hne⟩)
        · exact .inl hs'
        · exact absurd hs.symm hne
        · exact .inr inRest
    · rw [mem_cons, mem_cons, ih hl]
      constructor
      · rintro (rfl | hs' | ⟨inRest, hne⟩)
        · exact .inr ⟨.inl rfl, Ne.symm hs⟩
        · exact .inl hs'
        · exact .inr ⟨.inr inRest, hne⟩
      · rintro (hs' | ⟨rfl | inRest, hne⟩)
        · exact .inr (.inl hs')
        · exact .inl rfl
        · exact .inr (.inr ⟨inRest, hne⟩)

lemma place_ascending (doc : δ) (rises : docs.Pairwise (fun a b => key a < key b)) :
    (place key doc docs).Pairwise (fun a b => key a < key b) := by
  induction docs with
  | nil => simp [place]
  | cons head rest ih =>
    obtain ⟨first, later⟩ := pairwise_cons.mp rises
    simp only [place]
    split_ifs with hb hs
    · refine pairwise_cons.mpr ⟨?_, rises⟩
      intro other hm
      rcases mem_cons.mp hm with rfl | hm
      · exact hb
      · exact hb.trans (first other hm)
    · exact pairwise_cons.mpr ⟨fun other hm => hs ▸ first other hm, later⟩
    · refine pairwise_cons.mpr ⟨?_, ih later⟩
      intro other hm
      rcases (mem_place later).mp hm with rfl | ⟨hm, _⟩
      · exact lt_of_le_of_ne (not_lt.mp hb) (Ne.symm hs)
      · exact first other hm

/-- Add a document; a document already under the same key is overwritten. -/
def observe (set : Observed key) (doc : δ) : Observed key :=
  ⟨place key doc set.docs, place_ascending doc set.ascending⟩

def erase (set : Observed key) (k : κ) : Observed key :=
  ⟨set.docs.filter (fun d => decide (key d ≠ k)), set.ascending.filter _⟩

def size (set : Observed key) : Nat := set.docs.length

variable {set : Observed key}

lemma lookup_eq_some : set.lookup k = some doc ↔ doc ∈ set.docs ∧ key doc = k := by
  obtain ⟨docs, hr⟩ := set
  simp only [lookup]
  induction docs with
  | nil => simp
  | cons head rest ih =>
    obtain ⟨first, hl⟩ := pairwise_cons.mp hr
    by_cases hh : key head = k
    · simp only [List.find?_cons, hh, decide_true, Option.some.injEq, mem_cons]
      constructor
      · rintro rfl
        exact ⟨.inl rfl, hh⟩
      · rintro ⟨rfl | hm, hf⟩
        · rfl
        · exact absurd (hh.trans hf.symm) (first doc hm).ne
    · simp only [List.find?_cons, hh, decide_false, ih hl, mem_cons]
      constructor
      · exact fun hf => ⟨.inr hf.1, hf.2⟩
      · rintro ⟨rfl | hm, hf⟩
        · exact absurd hf hh
        · exact ⟨hm, hf⟩

lemma key_of_lookup (hf : set.lookup k = some doc) : key doc = k := (lookup_eq_some.mp hf).2

lemma mem_ids : k ∈ set.ids ↔ ∃ doc, set.lookup k = some doc := by
  simp only [ids, mem_map, lookup_eq_some]

lemma ids_ascending (set : Observed key) : set.ids.Pairwise (· < ·) :=
  pairwise_map.mpr set.ascending

lemma ids_nodup (set : Observed key) : set.ids.Nodup :=
  set.ids_ascending.imp ne_of_lt

@[simp] lemma length_ids (set : Observed key) : set.ids.length = set.size :=
  length_map _

lemma lookup_observe (set : Observed key) (doc : δ) (k : κ) :
    (set.observe doc).lookup k = if k = key doc then some doc else set.lookup k := by
  apply Option.ext
  intro other
  rw [lookup_eq_some, observe, mem_place set.ascending]
  split_ifs with hs
  · subst hs
    constructor
    · rintro ⟨rfl | ⟨_, ha⟩, hf⟩
      · rfl
      · exact absurd hf ha
    · rintro ⟨⟩
      exact ⟨.inl rfl, rfl⟩
  · rw [lookup_eq_some]
    constructor
    · rintro ⟨rfl | ⟨hm, _⟩, hf⟩
      · exact absurd hf.symm hs
      · exact ⟨hm, hf⟩
    · exact fun ⟨hm, hf⟩ => ⟨.inr ⟨hm, hf ▸ hs⟩, hf⟩

lemma lookup_erase (set : Observed key) (gone k : κ) :
    (set.erase gone).lookup k = if k = gone then none else set.lookup k := by
  split_ifs with hs
  · subst hs
    simp [lookup, erase, List.find?_eq_none]
  · apply Option.ext
    intro doc
    simp only [lookup_eq_some, erase, mem_filter, decide_eq_true_eq]
    constructor
    · exact fun hf => ⟨hf.1.1, hf.2⟩
    · exact fun hf => ⟨⟨hf.1, hf.2 ▸ hs⟩, hf.2⟩

lemma lookup_observe_self (set : Observed key) (doc : δ) :
    (set.observe doc).lookup (key doc) = some doc := by
  rw [lookup_observe, if_pos rfl]

lemma lookup_eq_none : set.lookup k = none ↔ ∀ doc ∈ set.docs, key doc ≠ k := by
  simp [lookup, List.find?_eq_none]

/-- Everything observed in the first set is observed, unchanged, in the second. -/
def Extends (small large : Observed key) : Prop :=
  ∀ k doc, small.lookup k = some doc → large.lookup k = some doc

lemma extends_observe (free : ∀ other, set.lookup (key doc) = some other → other = doc) :
    set.Extends (set.observe doc) := by
  intro k other hf
  rw [lookup_observe]
  split_ifs with hs
  · subst hs
    rw [free other hf]
  · exact hf

lemma erase_extends (set : Observed key) (gone : κ) : (set.erase gone).Extends set := by
  intro k doc hf
  rw [lookup_erase] at hf
  split_ifs at hf
  exact hf

def ofList (key : δ → κ) (docs : List δ) : Observed key := docs.foldl observe empty

lemma mem_docs : doc ∈ set.docs ↔ set.lookup (key doc) = some doc := by
  simp [lookup_eq_some]

/-- What a fold finds was there before, or is one of the documents folded in. -/
lemma lookup_foldl_observe (hf : (docs.foldl observe set).lookup k = some doc) :
    set.lookup k = some doc ∨ doc ∈ docs := by
  induction docs generalizing set with
  | nil => exact .inl hf
  | cons head rest ih =>
    rcases ih hf with old | hl
    · rw [lookup_observe] at old
      split_ifs at old
      · cases old
        exact .inr mem_cons_self
      · exact .inl old
    · exact .inr (mem_cons_of_mem _ hl)

/-- Where equal keys mean equal documents, folding in a list adds its members. -/
lemma mem_foldl_observe (inj : Function.Injective key) :
    doc ∈ (docs.foldl observe set).docs ↔ doc ∈ set.docs ∨ doc ∈ docs := by
  induction docs generalizing set with
  | nil => simp
  | cons head rest ih =>
    rw [foldl_cons, ih, observe, mem_place set.ascending, mem_cons, inj.ne_iff]
    constructor
    · rintro ((hs | ⟨hm, _⟩) | hm)
      · exact .inr (.inl hs)
      · exact .inl hm
      · exact .inr (.inr hm)
    · rintro (hm | hs | hm)
      · by_cases hs : doc = head
        · exact .inl (.inl hs)
        · exact .inl (.inr ⟨hm, hs⟩)
      · exact .inl (.inl hs)
      · exact .inr hm

lemma mem_ofList (inj : Function.Injective key) : doc ∈ (ofList key docs).docs ↔ doc ∈ docs := by
  rw [ofList, mem_foldl_observe inj]
  simp [empty]

lemma length_ofList (inj : Function.Injective key) (docs : List δ) :
    (ofList key docs).docs.length ≤ docs.length := by
  refine (subperm_of_subset ?_ fun doc => (mem_ofList inj).mp).length_le
  exact (ofList key docs).ascending.imp fun hb hs => hb.ne (congrArg key hs)

/-- Observe a list of documents, refusing a repeated key. -/
def ofDistinct (key : δ → κ) (docs : List δ) : Option (Observed key) :=
  docs.foldlM (fun set doc =>
    if (set.lookup (key doc)).isSome then none else some (set.observe doc)) empty

lemma place_last (above : ∀ other ∈ docs, key other < key doc) :
    place key doc docs = docs ++ [doc] := by
  induction docs with
  | nil => rfl
  | cons head rest ih =>
    have hb := above head mem_cons_self
    rw [place, if_neg hb.not_gt, if_neg hb.ne', ih fun other hm =>
      above other (mem_cons_of_mem _ hm), cons_append]

/-- Observing the documents of a set in order gives the set. -/
lemma ofList_docs (set : Observed key) : ofList key set.docs = set := by
  obtain ⟨docs, hr⟩ := set
  induction docs using List.reverseRecOn with
  | nil => rfl
  | append_singleton docs doc ih =>
    obtain ⟨ho, -, ha⟩ := pairwise_append.mp hr
    have hh := ih ho
    simp only [ofList, foldl_append, foldl_cons, foldl_nil] at hh ⊢
    simp only [hh, observe, place_last fun other hm => ha other hm doc (mem_singleton_self doc)]

lemma ofDistinct_docs (set : Observed key) : ofDistinct key set.docs = some set := by
  obtain ⟨docs, rises⟩ := set
  induction docs using List.reverseRecOn with
  | nil => rfl
  | append_singleton docs doc ih =>
    obtain ⟨old, -, ha⟩ := pairwise_append.mp rises
    have hb : ∀ other ∈ docs, key other < key doc := fun other hm =>
      ha other hm doc (mem_singleton_self doc)
    have hh := ih old
    have free : lookup ⟨docs, old⟩ (key doc) = none :=
      lookup_eq_none.mpr fun other hm => (hb other hm).ne
    have last : observe ⟨docs, old⟩ doc = ⟨docs ++ [doc], rises⟩ := by
      simp only [observe, place_last hb]
    simp only [ofDistinct] at hh ⊢
    rw [foldlM_append, hh, Option.bind_eq_bind, Option.bind_some, foldlM_cons, free, last]
    rfl

end Observed

/-- A set iterated in ascending order. -/
abbrev OrderedSet (α : Type) [LinearOrder α] := Observed (fun a : α => a)

@[simp] lemma OrderedSet.mem_ofList {α : Type} [LinearOrder α] {items a} :
    a ∈ (Observed.ofList (fun a : α => a) items).docs ↔ a ∈ items :=
  Observed.mem_ofList fun _ _ hs => hs

/-- The members of a finite set in ascending order, by a sort the kernel
    evaluates. -/
def ascending {α : Type} [LinearOrder α] (items : Finset α) : List α :=
  Quot.liftOn items.val (fun listed => listed.insertionSort (· ≤ ·)) (fun listed other perm =>
    (perm_insertionSort _ listed |>.trans (perm.trans
      (perm_insertionSort _ other).symm)).eq_of_pairwise'
      (pairwise_insertionSort _ listed) (pairwise_insertionSort _ other))

section

variable {α : Type} [LinearOrder α]

lemma ascending_perm (items : Finset α) : (ascending items : Multiset α) = items.val := by
  rcases items with ⟨⟨listed⟩, ho⟩
  exact Quot.sound (perm_insertionSort _ listed)

@[simp] lemma mem_ascending {items : Finset α} : a ∈ ascending items ↔ a ∈ items := by
  rw [← Multiset.mem_coe, ascending_perm, Finset.mem_val]

lemma nodup_ascending (items : Finset α) : (ascending items).Nodup := by
  rw [← Multiset.coe_nodup, ascending_perm]
  exact items.nodup

end

end Wyrd
