import Wyrd.Live.Wants

/-! # Whose demand it is

Waiters and the loop share one pending entry per identity. The last waiter to leave takes
the entry along unless the loop is marked as an owner, and the loop is marked only where
its registration made the entry: where a waiter made it before, the loop's demand is
accepted and leaves with the waiters.
-/

namespace Wyrd.Live

open List Function Finset

inductive Op where
  | register (content : ContentId)
  | registerUnowned (content : ContentId)
  | release (content : ContentId)
  | markAdmitted (committed : List ContentId)
  | retireWhere (settled : ContentId → Nat → Bool)

namespace WantRegistry

def apply (registry : WantRegistry) : Op → WantRegistry
  | .register content => (registry.register content).toOption.getD registry
  | .registerUnowned content =>
    ((registry.registerUnowned content).toOption.map Prod.snd).getD registry
  | .release content => registry.release content
  | .markAdmitted committed => registry.markAdmitted committed
  | .retireWhere settled => registry.retireWhere settled

def after (limit : Nat) (ops : List Op) : WantRegistry := ops.foldl apply (.withLimit limit)

/-- Whatever follows, the identity is pending unless it has been admitted. -/
def Lasts (registry : WantRegistry) (content : ContentId) : Prop :=
  ∀ later : List Op, content ∈ (later.foldl apply registry).pending ∨
    ∃ part, part <+: later ∧ content ∈ (part.foldl apply registry).admitted

/-- A sweep settled the admitted fetch of an identity, which was not demanded again since. -/
def Settled (limit : Nat) (ops : List Op) (content : ContentId) : Prop :=
  ∃ before settled rest, ops = before ++ .retireWhere settled :: rest ∧
    content ∈ (after limit before).admitted ∧
    settled content ((after limit before).waiting content) = true ∧
    ∀ part, part <+: rest →
      ¬ (after limit (before ++ .retireWhere settled :: part)).outstanding content

/-- Every pending identity has a waiter or belongs to the loop, and is not admitted. -/
structure Tracked (limit : Nat) (registry : WantRegistry) : Prop where
  limited : registry.limit = limit
  apart : ∀ content ∈ registry.pending, content ∉ registry.admitted
  owned : ∀ content ∈ registry.unowned, content ∈ registry.pending
  backed : ∀ content ∈ registry.pending, content ∈ registry.unowned ∨ 0 < registry.waiting content
  bounded : registry.pending.card + registry.admitted.card ≤ limit

variable {registry : WantRegistry} {content : ContentId} {limit : Nat}

/-- Registering changes nothing, adds a waiter, or adds an identity with its first waiter. -/
lemma apply_register (content : ContentId) :
    registry.apply (.register content) = if registry.outstanding content then
        { registry with
          waiting := update registry.waiting content (registry.waiting content + 1) }
      else if registry.saturated then registry
      else { registry with
        pending := insert content registry.pending
        waiting := update registry.waiting content (registry.waiting content + 1) } := by
  simp only [apply, register]
  split_ifs <;> rfl

lemma apply_registerUnowned (content : ContentId) :
    registry.apply (.registerUnowned content) =
      if registry.outstanding content ∨ registry.saturated = true then registry
      else { registry with
        pending := insert content registry.pending
        unowned := insert content registry.unowned } := by
  simp only [apply, registerUnowned]
  split_ifs <;> first | rfl | simp_all

lemma Tracked.markOne (h : Tracked limit registry) (content : ContentId) :
    Tracked limit (registry.markOne content) := by
  obtain ⟨hl, ha, ho, hback, hb⟩ := h
  have hcard : (if content ∈ registry.pending then insert content registry.admitted
      else registry.admitted).card + (registry.pending.erase content).card ≤ limit := by
    split_ifs with hm
    · have := card_erase_add_one hm
      have := card_insert_le content registry.admitted
      omega
    · rw [erase_eq_of_notMem hm]
      omega
  unfold WantRegistry.markOne
  constructor <;> grind

lemma Tracked.apply (h : Tracked limit registry) (op : Op) : Tracked limit (registry.apply op) := by
  have room : registry.saturated = false →
      registry.pending.card + registry.admitted.card < registry.limit := by simp [saturated]
  cases op with
  | register content =>
    obtain ⟨limits, apart, owns, hback, bound⟩ := h
    rw [apply_register]
    split_ifs <;> constructor <;> grind [outstanding]
  | registerUnowned content =>
    obtain ⟨limits, apart, owns, hback, bound⟩ := h
    rw [apply_registerUnowned]
    split_ifs <;> constructor <;> grind [outstanding]
  | release content =>
    obtain ⟨limits, apart, owns, hback, bound⟩ := h
    have := card_erase_le (s := registry.pending) (a := content)
    simp only [WantRegistry.apply, release]
    split
    · constructor <;> grind
    · split_ifs <;> constructor <;> grind
  | markAdmitted committed =>
    induction committed generalizing registry with
    | nil => exact h
    | cons content rest ih => exact ih (h.markOne content) (by simp [saturated])
  | retireWhere settled =>
    obtain ⟨limits, apart, owns, hback, bound⟩ := h
    have := card_filter_le registry.admitted
      fun id => (!settled id (registry.waiting id)) = true
    simp only [WantRegistry.apply, retireWhere]
    constructor <;> grind

lemma after_tracked (limit : Nat) (ops : List Op) : Tracked limit (after limit ops) := by
  induction ops using List.reverseRecOn with
  | nil => exact ⟨rfl, by simp [after, withLimit], by simp [after, withLimit],
      by simp [after, withLimit], by simp [after, withLimit]⟩
  | append_singleton done op ih =>
    rw [after, foldl_append]
    exact ih.apply op

lemma markAdmitted_spec (committed : List ContentId) :
    (registry.markAdmitted committed).waiting = registry.waiting ∧
      (content ∈ registry.admitted → content ∈ (registry.markAdmitted committed).admitted) ∧
      (registry.outstanding content → (registry.markAdmitted committed).outstanding content) := by
  induction committed generalizing registry with
  | nil => exact ⟨rfl, id, id⟩
  | cons other rest ih =>
    refine ⟨ih.1, fun ha => ih.2.1 ?_, fun ho => ih.2.2 ?_⟩ <;>
      grind [outstanding, WantRegistry.markOne]

lemma release_spec : (registry.release content).admitted = registry.admitted ∧
    (registry.release content).unowned = registry.unowned ∧
    (registry.release content).waiting =
      update registry.waiting content (registry.waiting content - 1) := by
  unfold release
  split
  · next hw => exact ⟨rfl, rfl, by rw [hw, Nat.zero_sub, ← hw, update_eq_self]⟩
  · next left hw => split_ifs <;> exact ⟨rfl, rfl, by rw [hw]; rfl⟩

lemma Tracked.keeps (h : Tracked limit registry) (owns : content ∈ registry.unowned) (op : Op) :
    content ∈ (registry.apply op).unowned ∨ content ∈ (registry.apply op).admitted := by
  cases op with
  | register other =>
    rw [apply_register]
    split_ifs <;> exact .inl owns
  | registerUnowned other =>
    rw [apply_registerUnowned]
    split_ifs
    · exact .inl owns
    · exact .inl (mem_insert_of_mem owns)
  | release other =>
    have hs : (registry.apply (.release other)).unowned = registry.unowned := release_spec.2.1
    exact .inl (hs ▸ owns)
  | markAdmitted committed =>
    induction committed generalizing registry with
    | nil => exact .inl owns
    | cons other rest ih =>
      by_cases hs : other = content
      · subst hs
        refine .inr ((markAdmitted_spec rest).2.1 ?_)
        simp [WantRegistry.markOne, h.owned _ owns]
      · exact ih (h.markOne other) (mem_erase.mpr ⟨Ne.symm hs, owns⟩)
  | retireWhere settled => exact .inl owns

lemma Tracked.lasts (h : Tracked limit registry) (owns : content ∈ registry.unowned) :
    registry.Lasts content := by
  intro later
  induction later generalizing registry with
  | nil => exact .inl (h.owned content owns)
  | cons op rest ih =>
    rcases h.keeps owns op with owns | admits
    · apply (ih (h.apply op) owns).imp_right
      intro ⟨part, front, admits⟩
      exact ⟨op :: part, cons_prefix_cons.mpr ⟨rfl, front⟩, admits⟩
    · exact .inr ⟨[op], cons_prefix_cons.mpr ⟨rfl, nil_prefix⟩, admits⟩

lemma releases_admitted (n : Nat) :
    ((replicate n (.release content)).foldl apply registry).admitted = registry.admitted := by
  induction n generalizing registry with
  | zero => rfl
  | succ n ih => exact ih.trans release_spec.1

lemma releases_pending (owns : content ∉ registry.unowned) {n}
    (hw : registry.waiting content = n + 1) :
    content ∉ ((replicate (n + 1) (.release content)).foldl apply registry).pending := by
  induction n generalizing registry with
  | zero => simp [apply, release, hw, owns]
  | succ n ih =>
    obtain ⟨-, hu, hleft⟩ := @release_spec registry content
    exact ih (hu ▸ owns) ((congrFun hleft content).trans (by rw [update_self, hw]; rfl))

lemma Tracked.not_lasts (h : Tracked limit registry) (waits : content ∈ registry.pending)
    (owns : content ∉ registry.unowned) : ¬ registry.Lasts content := by
  intro hlasts
  obtain ⟨n, hw⟩ := Nat.exists_eq_succ_of_ne_zero ((h.backed content waits).resolve_left owns).ne'
  rcases hlasts (replicate (n + 1) (.release content)) with hstill | ⟨part, front, admits⟩
  · exact releases_pending owns hw hstill
  · obtain ⟨hl, hr⟩ := prefix_replicate_iff.mp front
    rw [hr, releases_admitted] at admits
    exact h.apart content waits admits

/-- A release takes along nothing but the demand of the last waiter to leave. -/
lemma release_pending {other} (waits : other ∈ registry.pending)
    (hgone : other ∉ (registry.release content).pending) :
    other = content ∧ registry.waiting content = 1 := by
  unfold release at hgone
  split at hgone
  · exact absurd waits hgone
  · next left hw =>
    dsimp only at hgone
    split_ifs at hgone with hlast
    · refine ⟨?_, by rw [hw, hlast.1]⟩
      by_contra hne
      exact hgone (mem_erase.mpr ⟨hne, waits⟩)
    · exact absurd waits hgone

/-- Only a sweep leaves a waiter without what it waits for. -/
lemma waits_apply (op : Op) (hw : 0 < (registry.apply op).waiting content)
    (out : ¬ (registry.apply op).outstanding content) :
    0 < registry.waiting content ∧ ¬ registry.outstanding content ∨
      ∃ settled, op = .retireWhere settled ∧ content ∈ registry.admitted ∧
        settled content (registry.waiting content) = true := by
  cases op with
  | register other =>
    rw [apply_register] at hw out
    split_ifs at hw out <;> grind [outstanding]
  | registerUnowned other =>
    rw [apply_registerUnowned] at hw out
    split_ifs at hw out <;> grind [outstanding]
  | release other =>
    obtain ⟨admits, -, hwait⟩ := @release_spec registry other
    have waits := @release_pending registry other content
    simp only [apply, outstanding, admits, hwait] at hw out ⊢
    grind
  | markAdmitted committed =>
    obtain ⟨hwait, -, hkeep⟩ := @markAdmitted_spec registry content committed
    exact .inl ⟨hwait ▸ hw, fun hold => out (hkeep hold)⟩
  | retireWhere settled =>
    simp only [apply, retireWhere, outstanding, not_or] at hw out
    by_cases admits : content ∈ registry.admitted
    · exact .inr ⟨settled, rfl, admits, by simpa [admits] using out.2⟩
    · exact .inl ⟨hw, not_or.mpr ⟨out.1, admits⟩⟩

lemma after_waits (limit : Nat) (ops : List Op) (hw : 0 < (after limit ops).waiting content)
    (out : ¬ (after limit ops).outstanding content) : Settled limit ops content := by
  induction ops using List.reverseRecOn with
  | nil => exact absurd hw (Nat.lt_irrefl 0)
  | append_singleton done op ih =>
    rw [after, foldl_append] at hw
    have out' := out
    rw [after, foldl_append] at out'
    rcases waits_apply op hw out' with ⟨hw, hold⟩ | ⟨settled, rfl, admits, fixed⟩
    · obtain ⟨before, settled, rest, rfl, admits, fixed, hsince⟩ := ih hw hold
      refine ⟨before, settled, rest ++ [op], by simp, admits, fixed, fun part front => ?_⟩
      rcases prefix_concat_iff.mp front with rfl | front
      · simpa using out
      · exact hsince part front
    · refine ⟨done, settled, [], rfl, admits, fixed, fun part front => ?_⟩
      rwa [prefix_nil.mp front]

/-- In every run: ownerless demand that was accepted lasts until it is admitted exactly where
    it was not pending for waiters alone; the limit holds; an identity with a waiter is
    outstanding unless its fetch was settled; and a release takes along only the demand of the
    last waiter to leave. -/
theorem ownerless_demand_survives_iff (limit : Nat) (ops : List Op) :
    (∀ content, ((after limit ops).registerUnowned content).isOk = true →
      (((after limit ops).apply (.registerUnowned content)).Lasts content ↔
        (content ∈ (after limit ops).pending → content ∈ (after limit ops).unowned))) ∧
    (after limit ops).pending.card + (after limit ops).admitted.card ≤ limit ∧
    (∀ content, 0 < (after limit ops).waiting content →
      (after limit ops).outstanding content ∨ Settled limit ops content) ∧
    ∀ content, ((after limit ops).release content).admitted = (after limit ops).admitted ∧
      ∀ other ∈ (after limit ops).pending, other ∉ ((after limit ops).release content).pending →
        other = content ∧ (after limit ops).waiting content = 1 := by
  have h := after_tracked limit ops
  refine ⟨fun content hok => ?_, h.bounded, fun content hw => ?_,
    fun content => ⟨release_spec.1, fun other => release_pending⟩⟩
  · by_cases out : (after limit ops).outstanding content
    · have hs : (after limit ops).apply (.registerUnowned content) = after limit ops := by
        simp only [apply, registerUnowned, if_pos out]
        rfl
      rw [hs]
      constructor
      · intro hlasts waits
        by_contra owns
        exact h.not_lasts waits owns hlasts
      · intro owns
        rcases out with waits | ha
        · exact h.lasts (owns waits)
        · exact fun later => .inr ⟨[], nil_prefix, ha⟩
    · have fresh : content ∈ ((after limit ops).apply (.registerUnowned content)).unowned := by
        simp only [apply, registerUnowned, if_neg out] at hok ⊢
        split_ifs at hok ⊢
        · cases hok
        · exact mem_insert_self ..
      exact iff_of_true ((h.apply _).lasts fresh) fun waits => absurd (.inl waits) out
  · by_cases out : (after limit ops).outstanding content
    · exact .inl out
    · exact .inr (after_waits limit ops hw out)

/-- A reader waits for an identity, the loop demands it too and is told that it is
    outstanding; the reader gives up, and nobody demands it any more. -/
theorem coalesced_demand_dropped :
    ((after 2 [.register ⟨1⟩]).registerUnowned ⟨1⟩).isOk = true ∧
      (after 2 [.register ⟨1⟩, .registerUnowned ⟨1⟩, .release ⟨1⟩]).pending = ∅ ∧
      (after 2 [.register ⟨1⟩, .registerUnowned ⟨1⟩, .release ⟨1⟩]).admitted = ∅ := by
  decide +kernel

end WantRegistry

end Wyrd.Live
