import Wyrd.Mount.Inodes

/-! # Coherence of the inode table

Every operation keeps the two indexes in agreement, with one exception: a removal that
fails restores the inode it marked at admission, also when a rename has moved that inode
to another path in the meantime.
-/

namespace Wyrd.Mount

open List Option Function Nat AList

namespace InodeTable

/-- One operation of the mount on the table. -/
inductive Op where
  | intern (path : String) (kind : FileType) (generation : Nat)
  | validate (ino : Nat) (path : String) (kind : FileType) (generation : Nat)
  | claims (ino : Nat) (path : String) (kind : FileType) (generation : Nat)
  | retire (ino : Nat)
  | retirePath (path : String)
  | renamed (source target : String)
  | beginRemove (path : String)
  | finishRemove (path : String) (token : Nat) (success : Bool)
  deriving DecidableEq, Repr

def step (table : InodeTable) : Op → InodeTable
  | .intern path kind generation => (table.intern path kind generation).2
  | .validate ino path kind generation => (table.validate ino path kind generation).2
  | .claims ino path kind generation => (table.claims ino path kind generation).2
  | .retire ino => table.retire ino
  | .retirePath path => table.retirePath path
  | .renamed source target => table.renamed source target
  | .beginRemove path => (table.beginRemove path).2
  | .finishRemove path token success => table.finishRemove path token success

def run (ops : List Op) : InodeTable := ops.foldl step new

/-- The indexes agree: the owner of a path is bound and names it, no inode owns two
    paths, and every bound inode owns the path it names, or is recorded as unowned for
    it, or is marked by a removal in flight. -/
structure Coherent (table : InodeTable) : Prop where
  named : ∀ path ino, table.byPath path = some ino → table.path ino = some path
  single : ∀ path other ino, table.byPath path = some ino → table.byPath other = some ino →
    path = other
  placed : ∀ ino path, table.path ino = some path →
    table.byPath path = some ino ∨ ino ∈ table.unowned path ∨
      ∃ removed flight marked, table.removals.lookup removed = some flight ∧
        flight.retiring = some (ino, marked)

/-- The inode a failed removal would restore to a vacant path still names that path, or
    is bound no more. -/
def restorable (table : InodeTable) (path : String) (token : Nat) : Bool :=
  match table.removals.lookup path, table.byPath path with
  | some ⟨tokens, some (ino, _), false⟩, none =>
    decide (token ∉ tokens) || (table.path ino).all (· = path)
  | _, _ => true

/-- No removal fails after a rename has moved the inode it marked off a path that is
    vacant now. -/
def undisturbed (table : InodeTable) : Op → Bool
  | .finishRemove path token false => table.restorable path token
  | _ => true

/-- The indexes agree, but for some inodes about to be retired: owners name their path,
    and bound inodes own it or are recorded as unowned. Numbers from a limit on are unused,
    and a flight has marked an inode that named its path. -/
structure Sound (dying : List Nat) (limit : Nat) (table : InodeTable) : Prop where
  named : ∀ path ino, table.byPath path = some ino → table.path ino = some path
  placed : ∀ ino path, table.path ino = some path → ino ∉ dying →
    table.byPath path = some ino ∨ ino ∈ table.unowned path
  fresh : ∀ ino path, table.path ino = some path → ino < limit
  flights : ∀ path flight ino entry, table.removals.lookup path = some flight →
    flight.retiring = some (ino, entry) → entry.path = path ∧ ino < limit
  unused : limit ≤ table.next

variable {table next : InodeTable} {dying : List Nat} {path : String} {ino limit : Nat}

lemma Sound.coherent (sound : Sound [] limit table) : table.Coherent where
  named := sound.named
  single path other ino ho ho' :=
    Option.some.inj ((sound.named path ino ho).symm.trans (sound.named other ino ho'))
  placed ino path hb :=
    (sound.placed ino path hb not_mem_nil).imp_right .inl

lemma erased_some {κ α : Type} [DecidableEq κ] {index : κ → Option α} {erased key value}
    (hf : update index erased none key = some value) : key ≠ erased ∧ index key = some value := by
  by_cases hs : key = erased
  · rw [hs, update_self] at hf
    exact absurd hf (by simp)
  · rw [update_of_ne hs] at hf
    exact ⟨hs, hf⟩

lemma inserted_some {κ α : Type} [DecidableEq κ] {index : κ → Option α} {set key new value}
    (hf : update index set (some new) key = some value) :
    key = set ∧ new = value ∨ key ≠ set ∧ index key = some value := by
  by_cases hs : key = set
  · rw [hs, update_self, some_inj] at hf
    exact .inl ⟨hs, hf⟩
  · rw [update_of_ne hs] at hf
    exact .inr ⟨hs, hf⟩

lemma path_update (set : next.byIno = update table.byIno ino entry)
    (names : entry.map InodeEntry.path = named) : next.path = update table.path ino named := by
  funext other
  rw [path, set]
  by_cases hs : other = ino
  · rw [hs, update_self, update_self, names]
  · rw [update_of_ne hs, update_of_ne hs, path]

lemma Sound.forget (sound : Sound (ino :: dying) limit table)
    (names : next.path = update table.path ino none)
    (owners : ∀ path other, next.byPath path = some other ↔
      table.byPath path = some other ∧ other ≠ ino)
    (unowned : ∀ path other, other ≠ ino → other ∈ table.unowned path → other ∈ next.unowned path)
    (number : next.next = table.next) (removals : next.removals = table.removals) :
    Sound dying limit next := by
  refine ⟨fun path other owns => ?_, fun other path bound alive => ?_,
    fun other path bound => ?_, removals ▸ sound.flights, number ▸ sound.unused⟩
  · obtain ⟨owned, apart⟩ := (owners path other).mp owns
    rw [names, update_of_ne apart]
    exact sound.named path other owned
  · rw [names] at bound
    obtain ⟨apart, bound⟩ := erased_some bound
    rcases sound.placed other path bound (not_mem_cons_of_ne_of_not_mem apart alive) with
      ho | hm
    · exact .inl ((owners path other).mpr ⟨ho, apart⟩)
    · exact .inr (unowned path other apart hm)
  · rw [names] at bound
    exact sound.fresh other path (erased_some bound).2

lemma Sound.retire (sound : Sound (ino :: dying) limit table) : Sound dying limit (table.retire ino) := by
  cases bound : table.byIno ino with
  | none =>
    have names : update table.path ino none = table.path := by
      rw [update_eq_self_iff, InodeTable.path, bound]
      rfl
    rw [InodeTable.retire, bound]
    refine sound.forget names.symm (fun path other => ?_) (fun _ _ _ hm => hm) rfl rfl
    refine ⟨fun owns => ⟨owns, fun hs => ?_⟩, And.left⟩
    have hn := sound.named path other owns
    rw [hs, InodeTable.path, bound] at hn
    exact absurd hn (by simp)
  | some entry =>
    have hn : table.path ino = some entry.path := by rw [InodeTable.path, bound]; rfl
    rw [InodeTable.retire, bound]
    dsimp only
    refine sound.forget (path_update rfl rfl) (fun path other => ?_)
      (fun path other apart hm => ?_) rfl rfl
    · dsimp only
      split_ifs with held
      · refine ⟨fun owns => ?_, fun ⟨owns, apart⟩ => ?_⟩
        · obtain ⟨apart, owns⟩ := erased_some owns
          refine ⟨owns, fun hs => apart ?_⟩
          exact Option.some.inj ((hs ▸ sound.named path other owns).symm.trans hn)
        · rw [update_of_ne fun hs => apart (Option.some.inj ?_), owns]
          rw [← owns, hs, held]
      · refine ⟨fun owns => ⟨owns, fun hs => held ?_⟩, And.left⟩
        have pathEq := Option.some.inj ((hs ▸ sound.named path other owns).symm.trans hn)
        rw [← pathEq, owns, hs]
    · dsimp only
      by_cases hs : path = entry.path
      · rw [hs, update_self]
        exact (mem_erase_of_ne apart).mpr (hs ▸ hm)
      · rw [update_of_ne hs]
        exact hm

lemma Sound.weaken (sound : Sound [] limit table) : Sound dying limit table :=
  ⟨sound.named, fun ino path hb _ => sound.placed ino path hb not_mem_nil,
    sound.fresh, sound.flights, sound.unused⟩

lemma Sound.retirePath (sound : Sound [] limit table) (path : String) :
    Sound [] limit (table.retirePath path) := by
  cases owner : table.byPath path with
  | none =>
    rw [InodeTable.retirePath, owner]
    exact sound
  | some ino =>
    rw [InodeTable.retirePath, owner]
    dsimp only
    refine sound.weaken.forget (path_update rfl rfl) (fun other owned => ?_)
      (fun _ _ _ hm => hm) rfl rfl
    refine ⟨fun owns => ?_, fun ⟨owns, apart⟩ => ?_⟩
    · obtain ⟨apart, owns⟩ := erased_some owns
      refine ⟨owns, fun hs => apart ?_⟩
      exact Option.some.inj
        ((hs ▸ sound.named other owned owns).symm.trans (sound.named path ino owner))
    · dsimp only
      rw [update_of_ne fun hs => apart (Option.some.inj ?_), owns]
      rw [← owns, hs, owner]

lemma stamp_path (table : InodeTable) (ino generation : Nat) :
    (table.stamp ino generation).path = table.path := by
  rw [path_update rfl rfl, Function.update_eq_self_iff, InodeTable.path, Option.map_map]
  rfl

section

variable (sound : Sound [] limit table)
include sound

lemma Sound.stamp (ino generation : Nat) : Sound [] limit (table.stamp ino generation) := by
  have names := table.stamp_path ino generation
  exact ⟨fun path other => names ▸ sound.named path other,
    fun other path => names ▸ sound.placed other path,
    fun other path => names ▸ sound.fresh other path, sound.flights, sound.unused⟩

lemma Sound.bind {further : Nat} (vacant : table.byPath path = none)
    (free : ∀ named, table.path ino = some named → named = path)
    (names : next.path = update table.path ino (some path))
    (owners : next.byPath = update table.byPath path (some ino))
    (unowned : next.unowned = table.unowned) (removals : next.removals = table.removals)
    (number : limit ≤ further) (used : ino < further) (unused : further ≤ next.next) :
    Sound [] further next := by
  refine ⟨fun other owned owns => ?_, fun other named bound _ => ?_,
    fun other named bound => ?_, fun removed flight marked entry hf hl => ?_, unused⟩
  · rw [owners] at owns
    rw [names]
    rcases inserted_some owns with ⟨rfl, rfl⟩ | ⟨apart, owns⟩
    · exact update_self ..
    · have named := sound.named other owned owns
      have hne : owned ≠ ino := fun hs => apart (free other (hs ▸ named))
      rw [update_of_ne hne, named]
  · rw [names] at bound
    rw [owners, unowned]
    rcases inserted_some bound with ⟨rfl, rfl⟩ | ⟨apart, bound⟩
    · exact .inl (update_self ..)
    · refine (sound.placed other named bound not_mem_nil).imp_left fun owner => ?_
      have hne : named ≠ path := fun hs =>
        absurd (owner.symm.trans (hs ▸ vacant)) (by simp)
      rw [update_of_ne hne, owner]
  · rw [names] at bound
    rcases inserted_some bound with ⟨rfl, -⟩ | ⟨-, bound⟩
    · exact used
    · exact lt_of_lt_of_le (sound.fresh other named bound) number
  · rw [removals] at hf
    obtain ⟨hs, small⟩ := sound.flights removed flight marked entry hf hl
    exact ⟨hs, lt_of_lt_of_le small number⟩

lemma Sound.mint (free : table.byPath path = none) (kind : FileType) (generation : Nat) :
    ∃ further, Sound [] further (table.mint path kind generation).2 := by
  unfold InodeTable.mint
  cases hf : checkedAdd table.next 1 with
  | none => exact ⟨limit, sound⟩
  | some number =>
    have succ : number = table.next + 1 := (checkedAdd_eq_some.mp hf).1.symm
    refine ⟨number, sound.bind free (fun named hb => ?_) (path_update rfl rfl) rfl rfl
      rfl (succ ▸ le_succ_of_le sound.unused) (succ ▸ lt_succ_self _) le_rfl⟩
    exact absurd (sound.fresh _ named hb) (not_lt.mpr sound.unused)

lemma retire_vacant (owns : table.byPath path = some ino) :
    (table.retire ino).byPath path = none := by
  have hn := sound.named path ino owns
  obtain ⟨entry, hb, rfl⟩ := map_eq_some_iff.mp hn
  rw [InodeTable.retire, hb]
  simp [owns]

lemma Sound.intern (path : String) (kind : FileType) (generation : Nat) :
    ∃ further, Sound [] further (table.intern path kind generation).2 := by
  unfold InodeTable.intern
  split_ifs with root
  · exact ⟨limit, sound⟩
  cases owns : table.byPath path with
  | none => exact sound.mint owns kind generation
  | some ino =>
    dsimp only
    split_ifs
    · exact ⟨limit, sound.stamp ino generation⟩
    · exact sound.weaken.retire.mint (retire_vacant sound owns) kind generation

lemma Sound.validate (ino : Nat) (path : String) (kind : FileType) (generation : Nat) :
    Sound [] limit (table.validate ino path kind generation).2 := by
  unfold InodeTable.validate
  split_ifs
  · exact sound.stamp ino generation
  · exact sound.weaken.retire

lemma Sound.claims (ino : Nat) (path : String) (kind : FileType) (generation : Nat) :
    Sound [] limit (table.claims ino path kind generation).2 := by
  have validated := sound.validate ino path kind generation
  unfold InodeTable.claims
  split
  · next outcome => rwa [outcome] at validated
  · next outcome => rwa [outcome] at validated

lemma Sound.renamed (source target : String) : Sound [] limit (table.renamed source target) := by
  unfold InodeTable.renamed
  split_ifs with hs
  · exact sound
  have cleared := sound.retirePath target
  have vacant : (table.retirePath target).byPath target = none := by
    unfold InodeTable.retirePath
    cases owns : table.byPath target with
    | none => exact owns
    | some => exact update_self ..
  dsimp only
  generalize table.retirePath target = base at cleared vacant
  cases owns : base.byPath source with
  | none => exact cleared
  | some ino =>
    -- The source's mapping is forgotten and its inode, unbound now, bound to the target.
    have named := cleared.named source ino owns
    obtain ⟨entry, bound, -⟩ := map_eq_some_iff.mp named
    have forgotten := cleared.retirePath source
    have shape : base.retirePath source = { base with
        byPath := update base.byPath source none
        byIno := update base.byIno ino none } := by
      rw [InodeTable.retirePath, owns]
    have unbound : (base.retirePath source).path ino = none := by
      rw [shape, InodeTable.path]
      simp
    have free : (base.retirePath source).byPath target = none := by
      rw [shape]
      exact (update_of_ne (Ne.symm hs) _ _).trans vacant
    have rebound : update base.byIno ino
        ((base.byIno ino).map fun entry => { entry with path := target }) =
          update (base.retirePath source).byIno ino (some { entry with path := target }) := by
      rw [shape, bound, update_idem]
      rfl
    refine forgotten.bind free (fun named bound => absurd (unbound.symm.trans bound) (by simp))
      (path_update rebound rfl) (by rw [shape]) (by rw [shape]) (by rw [shape]) le_rfl
      (cleared.fresh ino source named) cleared.unused

lemma Sound.beginRemove (path : String) : Sound [] limit (table.beginRemove path).2 := by
  unfold InodeTable.beginRemove
  cases checkedAdd table.nextRemoval 1 with
  | none => exact sound
  | some =>
    refine ⟨sound.named, sound.placed, sound.fresh,
      fun removed flight marked entry hf leaves => ?_, sound.unused⟩
    dsimp only at hf
    by_cases hs : removed = path
    · subst hs
      rw [lookup_insert, some_inj] at hf
      subst hf
      cases already : table.removals.lookup removed with
      | some flight =>
        rw [already] at leaves
        exact sound.flights removed flight marked entry already leaves
      | none =>
        rw [already] at leaves
        obtain ⟨ino, ho, bound⟩ := bind_eq_some_iff.mp leaves
        obtain ⟨entry', bound, hs⟩ := map_eq_some_iff.mp bound
        cases hs
        have hn := sound.named removed marked ho
        have path : table.path marked = some entry.path := by rw [InodeTable.path, bound]; rfl
        exact ⟨Option.some.inj (path.symm.trans hn), sound.fresh marked _ hn⟩
    · rw [lookup_insert_ne hs] at hf
      exact sound.flights removed flight marked entry hf leaves

lemma Sound.landed (flight : RemovalFlight)
    (marks : ∀ ino entry, flight.retiring = some (ino, entry) →
      entry.path = path ∧ ino < limit) : Sound [] limit (table.landed path flight) := by
  refine ⟨sound.named, sound.placed, sound.fresh, fun removed other ino entry hf leaves => ?_,
    sound.unused⟩
  simp only [InodeTable.landed] at hf
  by_cases hs : removed = path
  · subst hs
    split_ifs at hf with hd
    · rw [lookup_erase] at hf
      exact absurd hf (by simp)
    · rw [lookup_insert, some_inj] at hf
      exact marks ino entry (hf ▸ leaves)
  · have hk : table.removals.lookup removed = some other := by
      split_ifs at hf with hd
      · rwa [lookup_erase_ne hs] at hf
      · rwa [lookup_insert_ne hs] at hf
    exact sound.flights removed other ino entry hk leaves

end

lemma Sound.reap (dead : List Nat) (sound : Sound dead limit table) :
    Sound [] limit (dead.foldl InodeTable.retire table) := by
  induction dead generalizing table with
  | nil => exact sound
  | cons ino dead ih => exact ih sound.retire

lemma Sound.condemn (sound : Sound [] limit table) (path : String) :
    Sound (table.unowned path) limit { table with unowned := update table.unowned path [] } := by
  refine ⟨sound.named, fun ino named hb alive => ?_, sound.fresh, sound.flights, sound.unused⟩
  refine (sound.placed ino named hb not_mem_nil).imp_right fun hm => ?_
  have hne : named ≠ path := fun hs => alive (hs ▸ hm)
  dsimp only
  rw [update_of_ne hne]
  exact hm

lemma Sound.commitRemoval (sound : Sound [] limit table) (path : String) (flight : RemovalFlight) :
    Sound [] limit (table.commitRemoval path flight) := by
  unfold InodeTable.commitRemoval
  cases flight.retiring with
  | none => exact ((sound.condemn path).reap _).retirePath path
  | some => exact ((sound.weaken.retire.condemn path).reap _).retirePath path

/-- The inode index after a failed removal: the marked inode is bound, by its entry from
    before where it was not. -/
lemma rebound_path (table : InodeTable) (ino : Nat) (mark : entry.path = path)
    (set : next.byIno = if (table.byIno ino).isSome then table.byIno
      else update table.byIno ino (some entry)) :
    next.path = update table.path ino (some ((table.path ino).getD path)) := by
  split_ifs at set with bound
  · obtain ⟨present, hf⟩ := isSome_iff_exists.mp bound
    have hn : table.path ino = some present.path := by rw [InodeTable.path, hf]; rfl
    have hs : next.path = table.path := by
      funext other
      rw [InodeTable.path, set, InodeTable.path]
    rw [hs, hn, getD_some, eq_comm, update_eq_self_iff, hn]
  · have unnamed : table.path ino = none := by
      rw [InodeTable.path, not_isSome_iff_eq_none.mp bound]
      rfl
    rw [unnamed, getD_none]
    exact path_update set (congrArg some mark)

section

variable (sound : Sound [] limit table)
include sound

lemma Sound.join {held : Nat} (owner : table.byPath path = some held) (used : ino < limit)
    (names : next.path = update table.path ino (some ((table.path ino).getD path)))
    (owners : next.byPath = table.byPath)
    (unowned : ∀ path other, other ∈ table.unowned path → other ∈ next.unowned path)
    (joined : held ≠ ino → ino ∈ next.unowned path) (number : next.next = table.next)
    (removals : next.removals = table.removals) : Sound [] limit next := by
  refine ⟨fun other owned owns => ?_, fun other named bound _ => ?_,
    fun other named bound => ?_, removals ▸ sound.flights, number ▸ sound.unused⟩
  · have named := sound.named other owned (owners ▸ owns)
    rw [names]
    by_cases hs : owned = ino
    · rw [hs] at named ⊢
      rw [update_self, named, getD_some]
    · rw [update_of_ne hs, named]
  · have hk (bound : table.path other = some named) :
        next.byPath named = some other ∨ other ∈ next.unowned named := by
      rw [owners]
      exact (sound.placed other named bound not_mem_nil).imp_right (unowned named other)
    rw [names] at bound
    rcases inserted_some bound with ⟨rfl, hs⟩ | ⟨-, bound⟩
    · cases prior : table.path other with
      | some =>
        rw [prior, getD_some] at hs
        exact hk (hs ▸ prior)
      | none =>
        rw [prior, getD_none] at hs
        refine .inr (hs ▸ joined fun owns => ?_)
        exact absurd ((owns ▸ sound.named path held owner).symm.trans prior) (by simp)
    · exact hk bound
  · rw [names] at bound
    rcases inserted_some bound with ⟨rfl, -⟩ | ⟨-, bound⟩
    · exact used
    · exact sound.fresh other named bound

lemma Sound.restore (mark : entry.path = path) (used : ino < limit)
    (restorable : table.byPath path = none → ∀ named, table.path ino = some named → named = path) :
    Sound [] limit (table.restore path ino entry) := by
  unfold InodeTable.restore
  cases owner : table.byPath path with
  | none =>
    have named : (table.path ino).getD path = path := by
      cases hb : table.path ino with
      | none => rfl
      | some named => exact restorable owner named hb
    refine sound.bind owner (restorable owner) ?_ rfl rfl rfl le_rfl used sound.unused
    rw [rebound_path table ino mark rfl, named]
  | some =>
    refine sound.join owner used (rebound_path table ino mark rfl) rfl (fun other old hm => ?_)
      (fun hne => ?_) rfl rfl
    · dsimp only
      split_ifs
      · exact hm
      by_cases hs : other = path
      · rw [hs, update_self]
        exact mem_insert_of_mem (hs ▸ hm)
      · rwa [update_of_ne hs]
    · dsimp only
      rw [if_neg hne, update_self]
      exact mem_insert_self

lemma Sound.finishRemove (calm : success = false → table.restorable path token = true) :
    Sound [] limit (table.finishRemove path token success) := by
  unfold InodeTable.finishRemove
  cases hf : table.removals.lookup path with
  | none => exact sound
  | some flight =>
    have marks (ino : Nat) (entry : InodeEntry) := sound.flights path flight ino entry hf
    dsimp only
    by_cases admits : token ∈ flight.tokens
    swap
    · rw [if_pos admits]
      exact sound
    rw [if_neg (not_not.mpr admits)]
    cases success with
    | true =>
      exact (sound.commitRemoval path flight).landed _ marks
    | false =>
      obtain ⟨tokens, retiring, committed⟩ := flight
      match committed, retiring with
      | true, _ => exact sound.landed _ marks
      | false, none => exact sound.landed _ marks
      | false, some (marked, entry) =>
        obtain ⟨hn, used⟩ := marks marked entry rfl
        refine (sound.restore hn used fun free other hb => ?_).landed _ marks
        have fine := calm rfl
        simp only [InodeTable.restorable, hf, free, hb, all_some,
          Bool.or_eq_true, decide_eq_true_eq] at fine
        exact fine.resolve_left (not_not.mpr admits)

lemma Sound.step (calm : table.undisturbed op = true) :
    ∃ further, Sound [] further (table.step op) := by
  cases op with
  | intern path kind generation => exact sound.intern path kind generation
  | validate ino path kind generation => exact ⟨limit, sound.validate ino path kind generation⟩
  | claims ino path kind generation => exact ⟨limit, sound.claims ino path kind generation⟩
  | retire => exact ⟨limit, sound.weaken.retire⟩
  | retirePath path => exact ⟨limit, sound.retirePath path⟩
  | renamed source target => exact ⟨limit, sound.renamed source target⟩
  | beginRemove path => exact ⟨limit, sound.beginRemove path⟩
  | finishRemove =>
    refine ⟨limit, sound.finishRemove fun hf => ?_⟩
    rw [hf] at calm
    exact calm

end

/-- A removal that fails after its marked inode was moved leaves that inode owning a
    path it does not name. -/
lemma disturbed_incoherent (moved : table.undisturbed op = false) : ¬(table.step op).Coherent := by
  intro hc
  match op with
  | .finishRemove path token false =>
    simp only [undisturbed, restorable] at moved
    split at moved
    · next tokens ino entry hf vacant =>
      simp only [Bool.or_eq_false_iff, decide_eq_false_iff_not, not_not] at moved
      obtain ⟨admits, away⟩ := moved
      obtain ⟨named, bound⟩ : ∃ named, table.path ino = some named := by
        cases bound : table.path ino with
        | none => rw [bound] at away; exact absurd away (by simp)
        | some named => exact ⟨named, rfl⟩
      have hne : named ≠ path := by simpa [bound] using away
      have there : (table.byIno ino).isSome = true := by
        obtain ⟨entry, hf, -⟩ := map_eq_some_iff.mp bound
        rw [hf]
        rfl
      have owns : (table.step (.finishRemove path token false)).byPath path = some ino := by
        simp [InodeTable.step, InodeTable.finishRemove, hf, admits, InodeTable.restore, vacant,
          InodeTable.landed]
      have names : (table.step (.finishRemove path token false)).path ino = some named := by
        rw [← bound]
        simp [InodeTable.step, InodeTable.finishRemove, hf, admits, InodeTable.restore, vacant,
          InodeTable.landed, InodeTable.path, there]
      exact hne (Option.some.inj (names.symm.trans (hc.named path ino owns)))
    · exact absurd moved (by simp)

lemma new_sound : Sound [] 2 new := by
  have blank : Sound [] 0 ⟨fun _ => none, fun _ => none, 0, ∅, fun _ => [], 1⟩ :=
    ⟨by simp, by simp [InodeTable.path], by simp [InodeTable.path], by simp, le_rfl⟩
  exact blank.bind rfl (by simp [InodeTable.path]) (path_update rfl rfl) rfl rfl rfl
    (zero_le _) (by decide) le_rfl

/-- The table stays coherent through a run exactly if no removal fails after a rename
    has moved the inode it marked off a path that is vacant. -/
theorem coherent_iff_undisturbed (ops : List Op) :
    (∀ done rest, ops = done ++ rest → (run done).Coherent) ↔
      ∀ done op rest, ops = done ++ op :: rest → (run done).undisturbed op = true := by
  constructor
  · intro hc done op rest split
    have after := hc (done ++ [op]) rest (by simp [split])
    rw [run, foldl_append] at after
    by_contra hm
    exact disturbed_incoherent (Bool.eq_false_iff.mpr hm) after
  · intro calm done rest split
    obtain ⟨limit, sound⟩ : ∃ limit, Sound [] limit (run done) := by
      induction done using List.reverseRecOn generalizing rest with
      | nil => exact ⟨2, new_sound⟩
      | append_singleton done op ih =>
        have split' : ops = done ++ op :: rest := by simp [split]
        obtain ⟨limit, sound⟩ := ih (op :: rest) split'
        rw [run, foldl_append]
        exact sound.step (calm done op rest split')
    exact sound.coherent

/-- A lookup, a removal, and a rename that wins the race against it. -/
def movedRemoval : List Op :=
  [.intern "a" .regularFile 1, .beginRemove "a", .renamed "a" "b", .finishRemove "a" 2 false]

/-- The inode moved to `b` owns both paths, and names only `b`. -/
theorem moved_inode_owns_both :
    (run movedRemoval).byPath "a" = some 2 ∧ (run movedRemoval).byPath "b" = some 2 ∧
      (run movedRemoval).path 2 = some "b" ∧ ¬(run movedRemoval).Coherent := by
  have first : (run movedRemoval).byPath "a" = some 2 := by decide +kernel
  have second : (run movedRemoval).byPath "b" = some 2 := by decide +kernel
  refine ⟨first, second, by decide +kernel, fun hc => ?_⟩
  exact absurd (hc.single "a" "b" 2 first second) (by decide)

end InodeTable

end Wyrd.Mount
