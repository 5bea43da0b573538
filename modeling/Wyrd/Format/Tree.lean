import Wyrd.Format.Documents

/-! # Directory nodes

A node holds one entry per path component, in the bytewise order of the components. The
structure carries what its construction checks: the order is strict, and every count
fits the wire format.
-/

namespace Wyrd

open List

inductive ComponentError where
  | empty
  | dot
  | dotDot
  | separator
  | nullByte
  deriving DecidableEq, Repr

/-- What is wrong with a name as a path component. -/
def Component.fault (name : String) : Option ComponentError :=
  if name = "" then some .empty
  else if name = "." then some .dot
  else if name = ".." then some .dotDot
  else if '/' ∈ name.toList then some .separator
  else if '\x00' ∈ name.toList then some .nullByte
  else none

structure Component where
  name : String
  valid : Component.fault name = none
  deriving DecidableEq

namespace Component

def new (name : String) : Except ComponentError Component :=
  match checked : fault name with
  | none => .ok ⟨name, checked⟩
  | some error => .error error

lemma name_injective : Function.Injective Component.name := by
  rintro ⟨first, _⟩ ⟨second, _⟩ hs
  cases hs
  rfl

/-- Strings compare by code points, which is the bytewise order of their UTF-8. -/
instance : LinearOrder Component := LinearOrder.lift' Component.name name_injective

lemma new_name (component : Component) : new component.name = .ok component := by
  unfold new
  split
  · rfl
  · next error failed => exact absurd (component.valid.symm.trans failed) (by simp)

end Component

inductive EntryContent where
  | file (size : UInt64) (executable : Bool) (chunks : List ContentId)
  | dir (subtree : ContentId)
  /-- The target is any string; the format does not resolve it. -/
  | symlink (target : String)
  deriving DecidableEq

structure Entry where
  name : Component
  content : EntryContent
  deriving DecidableEq

/-- A length beyond the 32-bit counts of the wire. -/
def Entry.overflow (entry : Entry) : Option Nat :=
  if countLimit < entry.name.name.utf8ByteSize then some entry.name.name.utf8ByteSize
  else
    match entry.content with
    | .file _ _ chunks => if countLimit < chunks.length then some chunks.length else none
    | .symlink target => if countLimit < target.utf8ByteSize then some target.utf8ByteSize else none
    | .dir _ => none

inductive TreeError where
  | truncated
  | trailingBytes
  | unsorted
  | unknownEntryKind (kind : UInt8)
  | invalidExecByte (byte : UInt8)
  | invalidComponent (error : ComponentError)
  | invalidUtf8
  | duplicateComponent (name : String)
  | countOverflow (length : Nat)
  deriving DecidableEq

structure Tree where
  entries : List Entry
  sorted : entries.Pairwise fun first second => first.name < second.name
  fits : entries.length ≤ countLimit ∧ ∀ entry ∈ entries, entry.overflow = none

def findEntry (entries : List Entry) (name : Component) : Option EntryContent :=
  (entries.find? (·.name = name)).map (·.content)

section

variable {α κ : Type} [LinearOrder κ]

lemma pairwise_mergeSort_key (key : α → κ) (items : List α) :
    (items.mergeSort fun a b => key a ≤ key b).Pairwise fun a b => key a ≤ key b := by
  have trans (a b c : α) (low : decide (key a ≤ key b) = true) (high : decide (key b ≤ key c) = true) :
      decide (key a ≤ key c) = true :=
    decide_eq_true ((of_decide_eq_true low).trans (of_decide_eq_true high))
  have total (a b : α) : (decide (key a ≤ key b) || decide (key b ≤ key a)) = true := by
    simpa using le_total (key a) (key b)
  exact (pairwise_mergeSort trans total items).imp fun hb => of_decide_eq_true hb

/-- Sorting brings strictly ascending items back from any order. -/
lemma mergeSort_of_perm {key : α → κ} {items sorted : List α} (perm : items.Perm sorted)
    (rises : sorted.Pairwise fun a b => key a < key b) :
    (items.mergeSort fun a b => key a ≤ key b) = sorted := by
  have perm := (items.mergeSort_perm fun a b => key a ≤ key b).trans perm
  refine perm.eq_of_pairwise (fun a b hh ht low high => ?_) (pairwise_mergeSort_key key items)
    (rises.imp le_of_lt)
  have nodup : (sorted.map key).Nodup := pairwise_map.mpr (rises.imp ne_of_lt)
  exact inj_on_of_nodup_map nodup (perm.mem_iff.mp hh) ht (le_antisymm low high)

end

namespace Tree

def empty : Tree := ⟨[], .nil, Nat.zero_le _, fun _ none => absurd none not_mem_nil⟩

def find (tree : Tree) (name : Component) : Option EntryContent := findEntry tree.entries name

/-- The first two neighbours of one name. -/
def duplicate : List Entry → Option Component
  | first :: second :: rest =>
    if first.name = second.name then some first.name else duplicate (second :: rest)
  | _ => none

/-- Sorted without equal neighbours is strictly sorted. -/
lemma sorted_of_duplicate {entries}
    (ordered : entries.Pairwise fun first second => first.name ≤ second.name)
    (once : duplicate entries = none) :
    entries.Pairwise fun first second => first.name < second.name := by
  induction entries with
  | nil => exact .nil
  | cons first rest ih =>
    obtain ⟨least, ordered⟩ := pairwise_cons.mp ordered
    cases rest with
    | nil => exact pairwise_singleton ..
    | cons second =>
      unfold duplicate at once
      split_ifs at once with hs
      have hb : first.name < second.name :=
        lt_of_le_of_ne (least second (mem_cons_self ..)) hs
      refine pairwise_cons.mpr ⟨fun other hm => ?_, ih ordered once⟩
      rcases mem_cons.mp hm with rfl | hm
      · exact hb
      · exact hb.trans_le ((pairwise_cons.mp ordered).1 other hm)

def before (first second : Entry) : Bool := first.name ≤ second.name

def order (entries : List Entry) : List Entry := entries.mergeSort before

lemma order_perm (entries : List Entry) : (order entries).Perm entries := mergeSort_perm ..

lemma order_sorted (entries : List Entry) :
    (order entries).Pairwise fun first second => first.name ≤ second.name :=
  pairwise_mergeSort_key Entry.name entries

def fromEntries (entries : List Entry) : Except TreeError Tree :=
  if wide : countLimit < entries.length then .error (.countOverflow entries.length)
  else
    match narrow : entries.findSome? Entry.overflow with
    | some length => .error (.countOverflow length)
    | none =>
      match distinct : duplicate (order entries) with
      | some name => .error (.duplicateComponent name.name)
      | none =>
        .ok ⟨order entries, sorted_of_duplicate (order_sorted entries) distinct,
          (order_perm entries).length_eq ▸ not_lt.mp wide, fun entry member =>
            List.findSome?_eq_none_iff.mp narrow entry ((order_perm entries).mem_iff.mp member)⟩

lemma fromEntries_perm {entries tree} (made : fromEntries entries = .ok tree) :
    tree.entries.Perm entries := by
  unfold fromEntries at made
  split_ifs at made
  split at made
  · cases made
  · split at made
    · cases made
    · cases made
      exact order_perm entries

lemma duplicate_of_sorted {entries}
    (sorted : entries.Pairwise fun first second => first.name < second.name) :
    duplicate entries = none := by
  induction entries with
  | nil => rfl
  | cons first rest ih =>
    obtain ⟨least, sorted⟩ := pairwise_cons.mp sorted
    cases rest with
    | nil => rfl
    | cons second =>
      unfold duplicate
      rw [if_neg (least second (mem_cons_self ..)).ne]
      exact ih sorted

/-- Any order of the entries of a node builds it again. -/
lemma fromEntries_of_perm {entries tree} (perm : entries.Perm (Tree.entries tree)) :
    fromEntries entries = .ok tree := by
  have sorts : order entries = tree.entries := mergeSort_of_perm perm tree.sorted
  have narrow : entries.findSome? Entry.overflow = none :=
    findSome?_eq_none_iff.mpr fun entry present => tree.fits.2 entry (perm.mem_iff.mp present)
  have distinct : duplicate (order entries) = none := by
    rw [sorts]
    exact duplicate_of_sorted tree.sorted
  unfold fromEntries
  rw [dif_neg (not_lt.mpr (perm.length_eq ▸ tree.fits.1))]
  split
  · next found =>
    rw [narrow] at found
    cases found
  · split
    · next found =>
      rw [distinct] at found
      cases found
    · cases tree
      simpa using sorts

lemma names_nodup (tree : Tree) : (tree.entries.map Entry.name).Nodup :=
  pairwise_map.mpr (tree.sorted.imp fun hb => hb.ne)

end Tree

/-- Where keys are unique, finding one finds the item with it. -/
lemma find_key {α κ : Type} [DecidableEq κ] {key : α → κ} {items : List α}
    (nodup : (items.map key).Nodup) {item k} :
    items.find? (fun other => key other = k) = some item ↔ item ∈ items ∧ key item = k := by
  constructor
  · intro hf
    exact ⟨mem_of_find?_eq_some hf, by simpa using List.find?_some hf⟩
  · rintro ⟨hm, rfl⟩
    cases hf : items.find? fun other => key other = key item with
    | none => exact absurd (List.find?_eq_none.mp hf item hm) (by simp)
    | some other =>
      have hs : key other = key item := by simpa using List.find?_some hf
      rw [inj_on_of_nodup_map nodup (mem_of_find?_eq_some hf) hm hs]

variable {entries : List Entry} {name other : Component} {content : EntryContent}

lemma findEntry_eq_some (nodup : (entries.map Entry.name).Nodup) :
    findEntry entries name = some content ↔ ⟨name, content⟩ ∈ entries := by
  simp only [findEntry, Option.map_eq_some_iff, find_key nodup]
  constructor
  · rintro ⟨entry, ⟨hm, rfl⟩, rfl⟩
    exact hm
  · exact fun hm => ⟨_, ⟨hm, rfl⟩, rfl⟩

lemma findEntry_perm (perm : entries.Perm others) (nodup : (entries.map Entry.name).Nodup) :
    findEntry entries name = findEntry others name := by
  refine Option.ext fun content => ?_
  rw [findEntry_eq_some nodup, findEntry_eq_some ((perm.map _).nodup_iff.mp nodup), perm.mem_iff]

lemma Tree.find_fromEntries (made : Tree.fromEntries entries = .ok tree) :
    tree.find name = findEntry entries name :=
  findEntry_perm (Tree.fromEntries_perm made) tree.names_nodup

end Wyrd
