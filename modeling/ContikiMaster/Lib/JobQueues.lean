import Mathlib.Data.List.Nodup

/-!
# Queues of jobs

A job is accepted into the queue of a key, or finished at once; the first job of a queue is
finished some time. Then every job is finished once, when no queue holds it any more, and
the jobs of one key in the order in which they were accepted.
-/

namespace ContikiMaster.Lib

open Function List

universe u

/-- The queues, the number of submitted jobs, the jobs that were accepted, with their keys, and the
jobs that were finished, both in order. -/
structure JobQueues (κ : Type u) where
  queue : κ → List ℕ
  submitted : ℕ
  accepted : List (κ × ℕ)
  finished : List ℕ

namespace JobQueues

variable {κ : Type u}

def empty : JobQueues κ := ⟨fun _ ↦ [], 0, [], []⟩

/-- A job is submitted and finished at once. -/
def reject (q : JobQueues κ) : JobQueues κ :=
  { q with submitted := q.submitted + 1, finished := q.finished ++ [q.submitted] }

variable [DecidableEq κ]

def accept (q : JobQueues κ) (k : κ) : JobQueues κ :=
  { q with
    queue := update q.queue k (q.queue k ++ [q.submitted])
    submitted := q.submitted + 1
    accepted := q.accepted ++ [(k, q.submitted)] }

def finish (q : JobQueues κ) (k : κ) (c : ℕ) : JobQueues κ :=
  { q with queue := update q.queue k (q.queue k).tail, finished := q.finished ++ [c] }

/-- The jobs that the queue of a key accepted, in order. -/
def acceptedTo (q : JobQueues κ) (k : κ) : List ℕ :=
  (q.accepted.filter fun x ↦ x.1 = k).map Prod.snd

/-- Every job is finished once and when no queue holds it, and the jobs of every key are finished in
the order in which they were accepted. -/
structure Accounted (q : JobQueues κ) : Prop where
  order : ∀ k, q.acceptedTo k = (q.finished.filter fun c ↦ c ∈ q.acceptedTo k) ++ q.queue k
  once : q.finished.Nodup
  finished_iff : ∀ c, c ∈ q.finished ↔ c < q.submitted ∧ ∀ k, c ∉ q.queue k
  distinct : (q.accepted.map Prod.snd).Nodup
  known : ∀ x ∈ q.accepted, x.2 < q.submitted

variable {q : JobQueues κ} {k : κ} {c : ℕ}

theorem accounted_empty : (empty : JobQueues κ).Accounted where
  order _ := rfl
  once := nodup_nil
  finished_iff c := ⟨fun hc ↦ absurd hc not_mem_nil, fun hc ↦ absurd hc.1 (Nat.not_lt_zero c)⟩
  distinct := nodup_nil
  known _ hx := by cases hx

theorem mem_acceptedTo : c ∈ q.acceptedTo k ↔ (k, c) ∈ q.accepted := by
  unfold acceptedTo
  rw [mem_map]
  constructor
  · rintro ⟨⟨k', c'⟩, hmem, rfl⟩
    obtain ⟨haccepted, hkey⟩ := mem_filter.mp hmem
    have hsame : k' = k := of_decide_eq_true hkey
    exact hsame ▸ haccepted
  · intro haccepted
    exact ⟨(k, c), mem_filter.mpr ⟨haccepted, decide_eq_true rfl⟩, rfl⟩

namespace Accounted

section

variable (hq : q.Accounted)

include hq

theorem mem_of_queue (hc : c ∈ q.queue k) : (k, c) ∈ q.accepted := by
  apply mem_acceptedTo.mp
  rw [hq.order]
  exact mem_append_right _ hc

theorem lt_of_queue (hc : c ∈ q.queue k) : c < q.submitted := hq.known _ (hq.mem_of_queue hc)

/-- A job was accepted by one queue. -/
theorem key_unique {k' : κ} (hc : (k, c) ∈ q.accepted) (hc' : (k', c) ∈ q.accepted) : k = k' := by
  have hsame := inj_on_of_nodup_map hq.distinct hc hc' rfl
  exact (Prod.mk.inj hsame).1

theorem nodup_queue (k : κ) : (q.queue k).Nodup := by
  have haccepted : (q.acceptedTo k).Nodup := by
    apply List.Nodup.sublist _ hq.distinct
    exact filter_sublist.map Prod.snd
  rw [hq.order] at haccepted
  exact (nodup_append.mp haccepted).2.1

theorem lt_of_finished (hc : c ∈ q.finished) : c < q.submitted := ((hq.finished_iff c).mp hc).1

theorem submitted_notMem_finished : q.submitted ∉ q.finished :=
  fun hmem ↦ absurd (hq.lt_of_finished hmem) (Nat.lt_irrefl _)

theorem reject : q.reject.Accounted where
  order k := by
    change q.acceptedTo k = ((q.finished ++ [q.submitted]).filter fun c ↦ c ∈ q.acceptedTo k) ++ _
    have hnew : q.submitted ∉ q.acceptedTo k := fun hmem ↦
      absurd (hq.known _ (mem_acceptedTo.mp hmem)) (Nat.lt_irrefl _)
    rw [filter_append, filter_singleton, decide_eq_false hnew]
    exact (hq.order k).trans (by rw [cond_false, append_nil]; rfl)
  once := hq.once.append (nodup_singleton _) fun c hc hnew ↦
    hq.submitted_notMem_finished (mem_singleton.mp hnew ▸ hc)
  finished_iff c := by
    change c ∈ q.finished ++ [q.submitted] ↔ c < q.submitted + 1 ∧ ∀ k, c ∉ q.queue k
    rw [mem_append, hq.finished_iff, mem_singleton]
    constructor
    · rintro (⟨hlt, hnot⟩ | rfl)
      · exact ⟨Nat.lt_succ_of_lt hlt, hnot⟩
      · exact ⟨Nat.lt_succ_self _, fun k hmem ↦ absurd (hq.lt_of_queue hmem) (Nat.lt_irrefl _)⟩
    · rintro ⟨hlt, hnot⟩
      rcases Nat.lt_succ_iff_lt_or_eq.mp hlt with hlt | heq
      · exact .inl ⟨hlt, hnot⟩
      · exact .inr heq
  distinct := hq.distinct
  known x hx := Nat.lt_succ_of_lt (hq.known x hx)

theorem accept (k : κ) : (q.accept k).Accounted where
  order k' := by
    have hold : ∀ c ∈ q.finished, c ∈ (q.accept k).acceptedTo k' ↔ c ∈ q.acceptedTo k' := by
      intro c hc
      rw [mem_acceptedTo, mem_acceptedTo]
      change (k', c) ∈ q.accepted ++ [(k, q.submitted)] ↔ _
      rw [mem_append, mem_singleton, or_iff_left]
      intro heq
      exact hq.submitted_notMem_finished ((Prod.mk.inj heq).2 ▸ hc)
    have hfilter : (q.finished.filter fun c ↦ c ∈ (q.accept k).acceptedTo k') =
        q.finished.filter fun c ↦ c ∈ q.acceptedTo k' :=
      filter_congr fun c hc ↦ decide_eq_decide.mpr (hold c hc)
    change _ = (q.finished.filter fun c ↦ c ∈ (q.accept k).acceptedTo k') ++
      update q.queue k (q.queue k ++ [q.submitted]) k'
    rw [hfilter]
    have happend : (q.accept k).acceptedTo k' =
        q.acceptedTo k' ++ if k = k' then [q.submitted] else [] := by
      change ((q.accepted ++ [(k, q.submitted)]).filter _).map Prod.snd = _
      rw [filter_append, map_append, filter_singleton]
      by_cases hk : k = k'
      · rw [if_pos hk, decide_eq_true hk]
        rfl
      · rw [if_neg hk, decide_eq_false hk]
        rfl
    rw [happend]
    by_cases hk : k = k'
    · rw [if_pos hk, ← hk, update_self, ← append_assoc, ← hq.order k]
    · rw [if_neg hk, update_of_ne (Ne.symm hk), append_nil]
      exact hq.order k'
  once := hq.once
  finished_iff c := by
    change c ∈ q.finished ↔ c < q.submitted + 1 ∧
      ∀ k', c ∉ update q.queue k (q.queue k ++ [q.submitted]) k'
    have hqueue : (∀ k', c ∉ update q.queue k (q.queue k ++ [q.submitted]) k') ↔
        (∀ k', c ∉ q.queue k') ∧ c ≠ q.submitted := by
      constructor
      · intro hnot
        have hself := hnot k
        rw [update_self, mem_append, mem_singleton, not_or] at hself
        refine ⟨fun k' ↦ ?_, hself.2⟩
        by_cases hk : k' = k
        · exact hk ▸ hself.1
        · have hother := hnot k'
          rwa [update_of_ne hk] at hother
      · rintro ⟨hnot, hne⟩ k'
        by_cases hk : k' = k
        · rw [hk, update_self, mem_append, mem_singleton, not_or]
          exact ⟨hnot k, hne⟩
        · rw [update_of_ne hk]
          exact hnot k'
    rw [hqueue, hq.finished_iff]
    constructor
    · exact fun ⟨hlt, hnot⟩ ↦ ⟨Nat.lt_succ_of_lt hlt, hnot, Nat.ne_of_lt hlt⟩
    · exact fun ⟨hlt, hnot, hne⟩ ↦ ⟨Nat.lt_of_le_of_ne (Nat.lt_succ_iff.mp hlt) hne, hnot⟩
  distinct := by
    change ((q.accepted ++ [(k, q.submitted)]).map Prod.snd).Nodup
    rw [map_append]
    refine hq.distinct.append (nodup_singleton _) fun c hc hnew ↦ ?_
    obtain ⟨x, hx, rfl⟩ := mem_map.mp hc
    exact Nat.ne_of_lt (hq.known x hx) (mem_singleton.mp hnew)
  known x hx := by
    rcases mem_append.mp hx with hold | hnew
    · exact Nat.lt_succ_of_lt (hq.known x hold)
    · rw [mem_singleton.mp hnew]
      exact Nat.lt_succ_self _

theorem finish {rest : List ℕ} (hqueue : q.queue k = c :: rest) :
    (q.finish k c).Accounted where
  order k' := by
    have hhead : (k, c) ∈ q.accepted := hq.mem_of_queue (hqueue ▸ mem_cons_self)
    have hmem : c ∈ q.acceptedTo k' ↔ k = k' := by
      rw [mem_acceptedTo]
      exact ⟨fun hc ↦ hq.key_unique hhead hc, fun hk ↦ hk ▸ hhead⟩
    change q.acceptedTo k' = ((q.finished ++ [c]).filter fun c ↦ c ∈ q.acceptedTo k') ++
      update q.queue k (q.queue k).tail k'
    rw [filter_append, filter_singleton]
    by_cases hk : k = k'
    · rw [decide_eq_true (hmem.mpr hk), ← hk, update_self, hqueue, append_assoc]
      change q.acceptedTo k = (q.finished.filter fun c ↦ c ∈ q.acceptedTo k) ++ (c :: rest)
      rw [← hqueue]
      exact hq.order k
    · rw [decide_eq_false (mt hmem.mp hk), update_of_ne (Ne.symm hk), cond_false,
        append_nil]
      exact hq.order k'
  once := by
    refine hq.once.append (nodup_singleton _) fun d hd hnew ↦ ?_
    rw [mem_singleton.mp hnew] at hd
    exact ((hq.finished_iff c).mp hd).2 k (hqueue ▸ mem_cons_self)
  finished_iff d := by
    have hhead : (k, c) ∈ q.accepted := hq.mem_of_queue (hqueue ▸ mem_cons_self)
    have hnodup := hq.nodup_queue k
    rw [hqueue] at hnodup
    change d ∈ q.finished ++ [c] ↔ d < q.submitted ∧ ∀ k', d ∉ update q.queue k (q.queue k).tail k'
    rw [mem_append, mem_singleton, hq.finished_iff, hqueue, tail_cons]
    constructor
    · rintro (⟨hlt, hnot⟩ | rfl)
      · refine ⟨hlt, fun k' ↦ ?_⟩
        by_cases hk : k' = k
        · rw [hk, update_self]
          exact fun hmem ↦ hnot k (hqueue ▸ mem_cons_of_mem _ hmem)
        · rw [update_of_ne hk]
          exact hnot k'
      · refine ⟨hq.known _ hhead, fun k' ↦ ?_⟩
        by_cases hk : k' = k
        · rw [hk, update_self]
          exact (nodup_cons.mp hnodup).1
        · rw [update_of_ne hk]
          exact fun hmem ↦ hk (hq.key_unique (hq.mem_of_queue hmem) hhead)
    · rintro ⟨hlt, hnot⟩
      by_cases hd : d = c
      · exact .inr hd
      · refine .inl ⟨hlt, fun k' hmem ↦ ?_⟩
        by_cases hk : k' = k
        · have hself := hnot k
          rw [update_self] at hself
          rw [hk, hqueue] at hmem
          exact hself ((mem_cons.mp hmem).resolve_left hd)
        · have hother := hnot k'
          rw [update_of_ne hk] at hother
          exact hother hmem
  distinct := hq.distinct
  known := hq.known

end

end Accounted

end JobQueues

end ContikiMaster.Lib
