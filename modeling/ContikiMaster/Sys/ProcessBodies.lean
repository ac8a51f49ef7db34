import ContikiMaster.Sys.Process

/-!
# The bodies that are active

What the list of processes, their states and the calls under way have to do with each
other: a process is in state `PROCESS_STATE_CALLED` only while its body is active, and a
body is entered only from `PROCESS_STATE_RUNNING` or at the end of its process.
-/

namespace ContikiMaster.Sys

open Lib Function List

variable {P : Type}

namespace Frame

/-- The process whose body is active. -/
def body : Frame P → Option P
  | thread p .. => some p
  | lastThread p => some p
  | _ => none

def exiting : Frame P → Option P
  | exitWalk p .. => some p
  | exitNext p .. => some p
  | exitEnd p .. => some p
  | _ => none

/-- The process whose body will be entered at the end of its exit. -/
def doomed [DecidableEq P] : Frame P → Option P
  | exitWalk p fromprocess .. => if some p ≠ fromprocess then some p else none
  | exitNext p fromprocess .. => if some p ≠ fromprocess then some p else none
  | _ => none

end Frame

def bodies (stack : List (Frame P)) : List P := stack.filterMap Frame.body

def exits (stack : List (Frame P)) : List P := stack.filterMap Frame.exiting

def dooms [DecidableEq P] (stack : List (Frame P)) : List P := stack.filterMap Frame.doomed

theorem mem_exits_of_mem_dooms [DecidableEq P] {stack : List (Frame P)} {p : P} (hp : p ∈ dooms stack) :
    p ∈ exits stack := by
  obtain ⟨frame, hframe, hdoomed⟩ := mem_filterMap.mp hp
  refine mem_filterMap.mpr ⟨frame, hframe, ?_⟩
  cases frame <;> simp_all [Frame.doomed, Frame.exiting]

/-- The processes on the list, their states, and those that are active, exiting or doomed. -/
structure Bodies (processList : List P) (state : P → ProcessState)
    (active exiting doomed : List P) : Prop where
  nodup : processList.Nodup
  listed : ∀ p, state p ≠ .none → p ∈ processList
  leaves : ∀ p ∈ processList, state p = .none → p ∈ exiting
  idle : ∀ p ∈ active, state p ≠ .running
  called : ∀ p, state p = .called → p ∈ active
  gone : ∀ p ∈ exiting, state p = .none
  dooms : ∀ p ∈ doomed, p ∉ active
  once : exiting.Nodup
  entered : active.Nodup

variable {processList active exiting doomed doomed' : List P} {state : P → ProcessState} {p q : P}

namespace Bodies

theorem init : Bodies [] (fun _ : P ↦ .none) [] [] [] := by
  constructor <;> simp

theorem drop (h : Bodies processList state (p :: active) exiting doomed)
    (hgone : state p = .none) : Bodies processList state active exiting doomed where
  nodup := h.nodup
  listed := h.listed
  leaves := h.leaves
  idle q hq := h.idle q (mem_cons_of_mem p hq)
  called q hq := by
    refine (mem_cons.mp (h.called q hq)).resolve_left ?_
    rintro rfl
    rw [hgone] at hq
    cases hq
  gone := h.gone
  dooms q hq hmem := h.dooms q hq (mem_cons_of_mem p hmem)
  once := h.once
  entered := (nodup_cons.mp h.entered).2

theorem left (h : Bodies processList state active (p :: exiting) doomed)
    (hlist : p ∉ processList) : Bodies processList state active exiting doomed where
  nodup := h.nodup
  listed := h.listed
  leaves q hq hgone := by
    refine (mem_cons.mp (h.leaves q hq hgone)).resolve_left ?_
    rintro rfl
    exact hlist hq
  idle := h.idle
  called := h.called
  gone q hq := h.gone q (mem_cons_of_mem p hq)
  dooms := h.dooms
  once := (nodup_cons.mp h.once).2
  entered := h.entered

theorem last (h : Bodies processList state active exiting (p :: doomed)) (hexits : p ∈ exiting)
    (honce : p ∉ doomed) : Bodies processList state (p :: active) exiting doomed where
  nodup := h.nodup
  listed := h.listed
  leaves := h.leaves
  idle q hq := by
    rcases mem_cons.mp hq with rfl | hq
    · rw [h.gone q hexits]
      decide
    · exact h.idle q hq
  called q hq := mem_cons_of_mem p (h.called q hq)
  gone := h.gone
  dooms q hq hmem := by
    rcases mem_cons.mp hmem with rfl | hmem
    · exact honce hq
    · exact h.dooms q (mem_cons_of_mem p hq) hmem
  once := h.once
  entered := nodup_cons.mpr ⟨h.dooms p mem_cons_self, h.entered⟩

theorem spare (h : Bodies processList state active exiting doomed) (hsub : doomed' ⊆ doomed) :
    Bodies processList state active exiting doomed' :=
  { h with dooms := fun q hq ↦ h.dooms q (hsub hq) }

variable [DecidableEq P]

theorem enter (h : Bodies processList state active exiting doomed) (hdoomed : doomed ⊆ exiting)
    (hrunning : state p = .running) :
    Bodies processList (update state p .called) (p :: active) exiting doomed where
  nodup := h.nodup
  listed q hq := by
    by_cases hqp : q = p
    · subst hqp
      exact h.listed q (by rw [hrunning]; decide)
    · rw [update_of_ne hqp] at hq
      exact h.listed q hq
  leaves q hlist hq := by
    by_cases hqp : q = p
    · subst hqp
      simp at hq
    · rw [update_of_ne hqp] at hq
      exact h.leaves q hlist hq
  idle q hq := by
    by_cases hqp : q = p
    · subst hqp
      simp
    · rw [update_of_ne hqp]
      exact h.idle q ((mem_cons.mp hq).resolve_left hqp)
  called q hq := by
    by_cases hqp : q = p
    · rw [hqp]
      exact mem_cons_self
    · rw [update_of_ne hqp] at hq
      exact mem_cons_of_mem p (h.called q hq)
  gone q hq := by
    have hgone := h.gone q hq
    have hqp : q ≠ p := by
      rintro rfl
      rw [hrunning] at hgone
      cases hgone
    rw [update_of_ne hqp]
    exact hgone
  dooms q hq := by
    have hactive := h.dooms q hq
    have hgone := h.gone q (hdoomed hq)
    intro hmem
    rcases mem_cons.mp hmem with rfl | hmem
    · rw [hrunning] at hgone
      cases hgone
    · exact hactive hmem
  once := h.once
  entered := nodup_cons.mpr ⟨fun hp ↦ h.idle p hp hrunning, h.entered⟩

theorem resume (h : Bodies processList state (p :: active) exiting doomed)
    (hcalled : state p = .called) :
    Bodies processList (update state p .running) active exiting doomed where
  nodup := h.nodup
  listed q hq := by
    by_cases hqp : q = p
    · subst hqp
      exact h.listed q (by rw [hcalled]; decide)
    · rw [update_of_ne hqp] at hq
      exact h.listed q hq
  leaves q hlist hq := by
    by_cases hqp : q = p
    · subst hqp
      simp at hq
    · rw [update_of_ne hqp] at hq
      exact h.leaves q hlist hq
  idle q hq := by
    have hqp : q ≠ p := by
      rintro rfl
      exact (nodup_cons.mp h.entered).1 hq
    rw [update_of_ne hqp]
    exact h.idle q (mem_cons_of_mem p hq)
  called q hq := by
    by_cases hqp : q = p
    · subst hqp
      simp at hq
    · rw [update_of_ne hqp] at hq
      exact (mem_cons.mp (h.called q hq)).resolve_left hqp
  gone q hq := by
    have hgone := h.gone q hq
    have hqp : q ≠ p := by
      rintro rfl
      rw [hcalled] at hgone
      cases hgone
    rw [update_of_ne hqp]
    exact hgone
  dooms q hq hmem := h.dooms q hq (mem_cons_of_mem p hmem)
  once := h.once
  entered := (nodup_cons.mp h.entered).2

section

variable (h : Bodies processList state active exiting doomed)

include h

theorem exit (hruns : state p ≠ .none) (hdoomed : ∀ q ∈ doomed', q ∈ doomed ∨ q ∉ active) :
    Bodies processList (update state p .none) active (p :: exiting) doomed' where
  nodup := h.nodup
  listed q hq := by
    by_cases hqp : q = p
    · subst hqp
      exact h.listed q hruns
    · rw [update_of_ne hqp] at hq
      exact h.listed q hq
  leaves q hlist hq := by
    by_cases hqp : q = p
    · rw [hqp]
      exact mem_cons_self
    · rw [update_of_ne hqp] at hq
      exact mem_cons_of_mem p (h.leaves q hlist hq)
  idle q hq := by
    by_cases hqp : q = p
    · subst hqp
      simp
    · rw [update_of_ne hqp]
      exact h.idle q hq
  called q hq := by
    by_cases hqp : q = p
    · subst hqp
      simp at hq
    · rw [update_of_ne hqp] at hq
      exact h.called q hq
  gone q hq := by
    by_cases hqp : q = p
    · subst hqp
      simp
    · rw [update_of_ne hqp]
      exact h.gone q ((mem_cons.mp hq).resolve_left hqp)
  dooms q hq := (hdoomed q hq).elim (h.dooms q) id
  once := nodup_cons.mpr ⟨fun hp ↦ hruns (h.gone p hp), h.once⟩
  entered := h.entered

theorem unlink (hgone : state p = .none) :
    Bodies (processList.erase p) state active exiting doomed where
  nodup := h.nodup.erase p
  listed q hq := by
    refine (mem_erase_of_ne ?_).mpr (h.listed q hq)
    rintro rfl
    exact hq hgone
  leaves q hlist hq := h.leaves q (mem_of_mem_erase hlist) hq
  idle := h.idle
  called := h.called
  gone := h.gone
  dooms := h.dooms
  once := h.once
  entered := h.entered

theorem start (hlist : p ∉ processList) (hactive : p ∉ active) (hexits : p ∉ exiting) :
    Bodies (p :: processList) (update state p .running) active exiting doomed where
  nodup := nodup_cons.mpr ⟨hlist, h.nodup⟩
  listed q hq := by
    by_cases hqp : q = p
    · rw [hqp]
      exact mem_cons_self
    · rw [update_of_ne hqp] at hq
      exact mem_cons_of_mem p (h.listed q hq)
  leaves q hlist' hq := by
    by_cases hqp : q = p
    · subst hqp
      simp at hq
    · rw [update_of_ne hqp] at hq
      exact h.leaves q ((mem_cons.mp hlist').resolve_left hqp) hq
  idle q hq := by
    rw [update_of_ne (ne_of_mem_of_not_mem hq hactive)]
    exact h.idle q hq
  called q hq := by
    by_cases hqp : q = p
    · subst hqp
      simp at hq
    · rw [update_of_ne hqp] at hq
      exact h.called q hq
  gone q hq := by
    rw [update_of_ne (ne_of_mem_of_not_mem hq hexits)]
    exact h.gone q hq
  dooms := h.dooms
  once := h.once
  entered := h.entered

end

end Bodies

end ContikiMaster.Sys
