import Mathlib
import Montage.Proofs.Engine.Runs
import Montage.Proofs.Engine.Turns

/-!
The engine as its slots see it: who has the lock of each slot, which run is in it, and what becomes
of the runs.  Every step of the engine is one of six moves on slots.  A run that is not over is
either in its slot or awaited by the call that has the lock, so a slot has one run at a time.
-/

namespace Montage

/-- The lock of a slot in the hands of a call, and the run that the call waits for. -/
structure Grip where
  slot : Slot
  awaited : Option Nat

namespace Call

/-- The lock that a call has now. -/
def grip? (c : Call) : Option Grip :=
  match c.errand, c.phase with
  | .launch slot _ _, .evict j => some ⟨slot, some j⟩
  | .launch slot _ _, .inspect => some ⟨slot, none⟩
  | .launch slot _ _, .clear => some ⟨slot, none⟩
  | .launch slot _ _, .makeWay => some ⟨slot, none⟩
  | .launch slot _ _, .spawn => some ⟨slot, none⟩
  | .kill (slot :: _), .evict j => some ⟨slot, some j⟩
  | _, _ => none

@[simp] theorem grip?_finish (c : Call) (answer : Except EngineError Reply) :
    (c.finish answer).grip? = none := by
  unfold finish grip?
  split <;> simp_all

@[simp] theorem grip?_acquire (errand : Errand) : (Call.mk errand .acquire).grip? = none := by
  unfold grip?
  split <;> simp_all

end Call

/-- What the slots see of an engine. -/
structure Desk where
  seat : Slot → Seat
  grip : Nat → Option Grip
  runs : List Run

def EngineState.desk (s : EngineState) : Desk where
  seat := s.seat
  grip i := s.calls[i]?.bind Call.grip?
  runs := s.runs

namespace Desk

open Function (update)

/-- What a call can do with a slot. -/
inductive Serve (d : Desk) (slot : Slot) : Desk → Prop
  | rest : Serve d slot d
  /-- Takes the lock and asks for the end of the run in the slot. -/
  | seize (i j : Nat) : (d.seat slot).holder = none → d.grip i = none →
      (d.seat slot).occupant = some j →
      Serve d slot ⟨update d.seat slot ⟨some i, none⟩, update d.grip i (some ⟨slot, some j⟩),
        d.runs.modify j .doom⟩
  | enter (i : Nat) : (d.seat slot).holder = none → d.grip i = none →
      (d.seat slot).occupant = none →
      Serve d slot ⟨update d.seat slot ⟨some i, none⟩, update d.grip i (some ⟨slot, none⟩), d.runs⟩
  /-- The awaited run is over. -/
  | settle (i j : Nat) : d.grip i = some ⟨slot, some j⟩ →
      (∀ r, d.runs[j]? = some r → r.isOver) →
      Serve d slot { d with grip := update d.grip i (some ⟨slot, none⟩) }
  | release (i : Nat) (awaited : Option Nat) : d.grip i = some ⟨slot, awaited⟩ →
      (∀ j r, awaited = some j → d.runs[j]? = some r → r.isOver) →
      Serve d slot { d with
        seat := update d.seat slot { d.seat slot with holder := none }
        grip := update d.grip i none }
  | spawn (i : Nat) (command : Command) : d.grip i = some ⟨slot, none⟩ →
      Serve d slot ⟨update d.seat slot ⟨none, some d.runs.length⟩, update d.grip i none,
        d.runs ++ [Run.start slot command]⟩

/-- The moves of the engine on its slots. -/
inductive Step (d : Desk) : Desk → Prop
  | serve {d' : Desk} (slot : Slot) : d.Serve slot d' → Step d d'
  | move (j : Nat) (r r' : Run) : d.runs[j]? = some r → r.Moves r' →
      Step d { d with runs := d.runs.set j r' }

/-- The lock of a slot is in the hands of the call that grips it. -/
def Held (seat : Slot → Seat) (grip : Nat → Option Grip) : Prop :=
  ∀ i slot, (seat slot).holder = some i ↔ ∃ awaited, grip i = some ⟨slot, awaited⟩

section Held

variable {seat : Slot → Seat} {grip : Nat → Option Grip} {i : Nat} {slot : Slot}

theorem Held.take (h : Held seat grip) (hfree : (seat slot).holder = none) (hgrip : grip i = none)
    (occupant awaited : Option Nat) :
    Held (update seat slot ⟨some i, occupant⟩) (update grip i (some ⟨slot, awaited⟩)) := by
  intro k place
  have hk := h k place
  by_cases hplace : place = slot <;> by_cases hki : k = i
  · subst hplace hki
    simp
  · subst hplace
    rw [hfree] at hk
    simpa [hki, Ne.symm hki] using hk
  · subst hki
    rw [hgrip] at hk
    simpa [hplace, Ne.symm hplace] using hk
  · simpa [hplace, hki] using hk

theorem Held.drop (h : Held seat grip) {awaited : Option Nat}
    (hgrip : grip i = some ⟨slot, awaited⟩) (occupant : Option Nat) :
    Held (update seat slot ⟨none, occupant⟩) (update grip i none) := by
  intro k place
  have hk := h k place
  by_cases hplace : place = slot <;> by_cases hki : k = i
  · subst hplace hki
    simp
  · subst hplace
    rw [(h i place).mpr ⟨_, hgrip⟩] at hk
    simpa [hki, Ne.symm hki] using hk
  · subst hki
    rw [hgrip] at hk
    simpa [hplace, Ne.symm hplace] using hk
  · simpa [hplace, hki] using hk

theorem Held.regrip (h : Held seat grip) {awaited : Option Nat}
    (hgrip : grip i = some ⟨slot, awaited⟩) (awaited' : Option Nat) :
    Held seat (update grip i (some ⟨slot, awaited'⟩)) := by
  intro k place
  rw [h k place]
  by_cases hki : k = i
  · subst hki
    rw [hgrip]
    simp
  · simp [hki]

end Held

/-- Nothing about a slot changes: neither its lock nor the runs in it. -/
structure Untouched (slot : Slot) (d d' : Desk) : Prop where
  seat : d'.seat slot = d.seat slot
  runs : ∀ (j : Nat) (r : Run), r.slot = slot → (d'.runs[j]? = some r ↔ d.runs[j]? = some r)

/-- A locked slot is empty, a run sits in its own slot, and a run that is not over is in its slot or
awaited there by the call with the lock. -/
structure Coherent (d : Desk) : Prop where
  held : Held d.seat d.grip
  locked : ∀ slot, (d.seat slot).holder ≠ none → (d.seat slot).occupant = none
  seated : ∀ slot j, (d.seat slot).occupant = some j → ∃ r, d.runs[j]? = some r ∧ r.slot = slot
  current : ∀ (j : Nat) (r : Run), d.runs[j]? = some r → r.isOver = false →
    (d.seat r.slot).occupant = some j ∨ ∃ i, d.grip i = some ⟨r.slot, some j⟩
  runs : ∀ r ∈ d.runs, r.Coherent

namespace Coherent

variable {d d' : Desk}

theorem start : Coherent ⟨fun _ => ⟨none, none⟩, fun _ => none, []⟩ where
  held i slot := by simp
  locked slot h := absurd rfl h
  seated slot j h := by contradiction
  current j r h := by simp at h
  runs r h := by simp at h

/-- In a slot without an occupant all runs are over but the one that is awaited. -/
theorem isOver_of_empty (h : d.Coherent) {slot : Slot} (hempty : (d.seat slot).occupant = none)
    (hdone : ∀ i j r, d.grip i = some ⟨slot, some j⟩ → d.runs[j]? = some r → r.isOver) {r : Run}
    (hr : r ∈ d.runs) (hslot : r.slot = slot) : r.isOver := by
  by_contra hover
  rw [Bool.not_eq_true] at hover
  obtain ⟨j, hj⟩ := List.mem_iff_getElem?.mp hr
  subst hslot
  rcases h.current j r hj hover with hseat | ⟨i, hi⟩
  · rw [hempty] at hseat
    contradiction
  · rw [hdone i j r hi hj] at hover
    contradiction

theorem isOver_of_grip (h : d.Coherent) {i : Nat} {slot : Slot} {awaited : Option Nat}
    (hgrip : d.grip i = some ⟨slot, awaited⟩)
    (hdone : ∀ j r, awaited = some j → d.runs[j]? = some r → r.isOver) {r : Run} (hr : r ∈ d.runs)
    (hslot : r.slot = slot) : r.isOver := by
  have hholder : (d.seat slot).holder = some i := (h.held i slot).mpr ⟨_, hgrip⟩
  have hempty := h.locked slot (by rw [hholder]; exact Option.some_ne_none i)
  refine h.isOver_of_empty hempty (fun k j r hk hj => ?_) hr hslot
  have hsame := (h.held k slot).mpr ⟨_, hk⟩
  obtain rfl := Option.some.inj (hholder.symm.trans hsame)
  rw [hgrip, Option.some.injEq, Grip.mk.injEq] at hk
  exact hdone j r hk.2 hj

theorem isOver_of_free (h : d.Coherent) {slot : Slot} (hfree : (d.seat slot).holder = none)
    (hempty : (d.seat slot).occupant = none) {r : Run} (hr : r ∈ d.runs) (hslot : r.slot = slot) :
    r.isOver := by
  refine h.isOver_of_empty hempty (fun i j r hi _ => ?_) hr hslot
  rw [(h.held i slot).mpr ⟨_, hi⟩] at hfree
  contradiction

/-- A slot has at most one run that is not over. -/
theorem eq_of_isOver_eq_false (h : d.Coherent) {j k : Nat} {r r' : Run} (hj : d.runs[j]? = some r)
    (hk : d.runs[k]? = some r') (hslot : r.slot = r'.slot) (hr : r.isOver = false)
    (hr' : r'.isOver = false) : j = k := by
  have hlocked {i awaited n : Nat} (hi : d.grip i = some ⟨r'.slot, some awaited⟩)
      (hn : (d.seat r'.slot).occupant = some n) : False := by
    have hholder := (h.held i r'.slot).mpr ⟨_, hi⟩
    rw [h.locked r'.slot (by rw [hholder]; exact Option.some_ne_none i)] at hn
    contradiction
  have hj := h.current j r hj hr
  have hk := h.current k r' hk hr'
  rw [hslot] at hj
  rcases hj with hj | ⟨i, hi⟩ <;> rcases hk with hk | ⟨i', hi'⟩
  · exact Option.some.inj (hj.symm.trans hk)
  · exact (hlocked hi' hj).elim
  · exact (hlocked hi hk).elim
  · have hholder := (h.held i r'.slot).mpr ⟨_, hi⟩
    rw [(h.held i' r'.slot).mpr ⟨_, hi'⟩] at hholder
    obtain rfl := Option.some.inj hholder
    simpa [hi] using hi'

/-- No run is lost, and none changes but as a run does. -/
theorem becomes (h : d.Coherent) (hs : d.Step d') {j : Nat} {r : Run} (hr : d.runs[j]? = some r) :
    ∃ r', d'.runs[j]? = some r' ∧ r.Becomes r' := by
  cases hs with
  | serve slot hs => cases hs with
    | rest | enter | settle | release => exact ⟨r, hr, .refl r⟩
    | seize i k =>
      by_cases hjk : k = j
      · exact ⟨_, by simp [hjk, hr], .doom r⟩
      · exact ⟨r, by simp [hjk, hr], .refl r⟩
    | spawn =>
      have hlt := (List.getElem?_eq_some_iff.mp hr).1
      exact ⟨r, by rw [List.getElem?_append_left hlt, hr], .refl r⟩
  | move k r₀ r' hk hmove =>
    by_cases hjk : k = j
    · subst hjk
      obtain rfl := Option.some.inj (hk.symm.trans hr)
      exact ⟨r', List.getElem?_set_of_eq_some hk r',
        (h.runs r₀ (List.mem_of_getElem? hr)).becomes hmove⟩
    · exact ⟨r, by rw [List.getElem?_set_ne hjk, hr], .refl r⟩

theorem forall_coherent (h : d.Coherent) (hs : d.Step d') : ∀ r ∈ d'.runs, r.Coherent := by
  cases hs with
  | serve slot hs => cases hs with
    | rest | enter | settle | release => exact h.runs
    | seize i k =>
      intro r hr
      obtain ⟨j, hj⟩ := List.mem_iff_getElem?.mp hr
      simp only [List.getElem?_modify, Option.map_eq_map, Option.map_eq_some_iff] at hj
      obtain ⟨r₀, hr₀, rfl⟩ := hj
      have hcoherent := h.runs r₀ (List.mem_of_getElem? hr₀)
      split
      · exact hcoherent.doom
      · exact hcoherent
    | spawn i command =>
      intro r hr
      cases List.mem_append.mp hr with
      | inl hr => exact h.runs r hr
      | inr hr =>
        rw [List.mem_singleton.mp hr]
        exact .start slot command
  | move j r₀ r' hj hmove =>
    intro r hr
    cases List.mem_or_eq_of_mem_set hr with
    | inl hr => exact h.runs r hr
    | inr hr =>
      rw [hr]
      exact (h.runs r₀ (List.mem_of_getElem? hj)).moves hmove

theorem held_serve (h : d.Coherent) {slot : Slot} (hs : d.Serve slot d') :
    Held d'.seat d'.grip := by
  cases hs with
  | rest => exact h.held
  | seize i j hfree hgrip | enter i hfree hgrip => exact h.held.take hfree hgrip _ _
  | settle i j hgrip => exact h.held.regrip hgrip _
  | release i awaited hgrip | spawn i command hgrip => exact h.held.drop hgrip _

/-- Serving a slot leaves the others alone. -/
theorem seat_serve {slot place : Slot} (hs : d.Serve slot d') (hplace : place ≠ slot) :
    d'.seat place = d.seat place := by
  cases hs with
  | rest | settle => rfl
  | seize | enter | release | spawn => exact Function.update_of_ne hplace _ _

theorem runs_serve (h : d.Coherent) {slot : Slot} (hs : d.Serve slot d') {j : Nat} {r : Run}
    (hr : d.runs[j]? = some r) (hplace : r.slot ≠ slot) : d'.runs[j]? = some r := by
  cases hs with
  | rest | enter | settle | release => exact hr
  | seize i k hfree hgrip hoccupant =>
    have hjk : k ≠ j := by
      rintro rfl
      obtain ⟨r₀, hr₀, hslot⟩ := h.seated slot k hoccupant
      rw [hr, Option.some.injEq] at hr₀
      exact hplace (hr₀ ▸ hslot)
    simp [hjk, hr]
  | spawn => rw [List.getElem?_append_left (List.getElem?_eq_some_iff.mp hr).1, hr]

/-- A run is new only where the others of its slot are over. -/
theorem isOver_of_new (h : d.Coherent) (hs : d.Step d') {r r₀ : Run}
    (hr : r ∈ d'.runs.drop d.runs.length) (hr₀ : r₀ ∈ d.runs) (hslot : r₀.slot = r.slot) :
    r₀.isOver := by
  cases hs with
  | serve slot hs => cases hs with
    | rest | enter | settle | release => simp at hr
    | seize => simp [List.drop_eq_nil_of_le] at hr
    | spawn i command hgrip =>
      rw [List.drop_left, List.mem_singleton] at hr
      exact h.isOver_of_grip hgrip (by simp) hr₀ (hslot.trans (by rw [hr]; rfl))
  | move => simp [List.drop_eq_nil_of_le] at hr

/-- A run of another slot was there before. -/
theorem runs_of_serve {slot : Slot} (hs : d.Serve slot d') {j : Nat} {r : Run}
    (hr : d'.runs[j]? = some r) (hplace : r.slot ≠ slot) :
    ∃ r₀, d.runs[j]? = some r₀ ∧ r₀.slot = r.slot := by
  cases hs with
  | rest | enter | settle | release => exact ⟨r, hr, rfl⟩
  | seize i k =>
    simp only [List.getElem?_modify, Option.map_eq_map, Option.map_eq_some_iff] at hr
    obtain ⟨r₀, hr₀, rfl⟩ := hr
    exact ⟨r₀, hr₀, by split <;> rfl⟩
  | spawn =>
    have hlt : j < d.runs.length := by
      by_contra hlt
      rw [List.getElem?_append_right (Nat.not_lt.mp hlt)] at hr
      have hnew := List.mem_singleton.mp (List.mem_of_getElem? hr)
      exact hplace (by rw [hnew]; rfl)
    exact ⟨r, by rw [← hr, List.getElem?_append_left hlt], rfl⟩

theorem untouched_serve (h : d.Coherent) {slot place : Slot} (hs : d.Serve slot d')
    (hplace : place ≠ slot) : d.Untouched place d' where
  seat := seat_serve hs hplace
  runs j r hr := by
    constructor
    · intro hj
      obtain ⟨r₀, hr₀, hslot⟩ := runs_of_serve hs hj (hr ▸ hplace)
      have hsame := h.runs_serve hs hr₀ (by rw [hslot, hr]; exact hplace)
      rw [hr₀, Option.some.injEq]
      exact Option.some.inj (hsame.symm.trans hj)
    · intro hj
      exact h.runs_serve hs hj (hr ▸ hplace)

theorem locked_serve (h : d.Coherent) {slot : Slot} (hs : d.Serve slot d') (place : Slot)
    (hlock : (d'.seat place).holder ≠ none) : (d'.seat place).occupant = none := by
  by_cases hplace : place = slot
  · subst hplace
    cases hs with
    | rest | settle => exact h.locked place hlock
    | seize | enter => simp
    | release | spawn => simp at hlock
  · rw [seat_serve hs hplace] at hlock ⊢
    exact h.locked place hlock

theorem seated_serve (h : d.Coherent) {slot : Slot} (hs : d.Serve slot d') (place : Slot) (j : Nat)
    (hseat : (d'.seat place).occupant = some j) :
    ∃ r, d'.runs[j]? = some r ∧ r.slot = place := by
  have hkeep (hold : (d.seat place).occupant = some j) :
      ∃ r, d'.runs[j]? = some r ∧ r.slot = place := by
    obtain ⟨r, hr, hslot⟩ := h.seated place j hold
    obtain ⟨r', hr', hbecomes⟩ := h.becomes (.serve slot hs) hr
    exact ⟨r', hr', hbecomes.slot.trans hslot⟩
  by_cases hplace : place = slot
  · subst hplace
    cases hs with
    | rest | settle => exact hkeep hseat
    | seize | enter => simp at hseat
    | release => exact hkeep (by simpa using hseat)
    | spawn i command =>
      simp only [Function.update_self, Option.some.injEq] at hseat
      exact ⟨Run.start place command, by simp [← hseat], rfl⟩
  · rw [seat_serve hs hplace] at hseat
    exact hkeep hseat

/-- Another grip is out of reach. -/
theorem update_grip {grip : Nat → Option Grip} {i n : Nat} {g : Grip} (hn : grip n = some g)
    (hi : grip i ≠ some g) (next : Option Grip) : update grip i next n = some g := by
  have hne : n ≠ i := by
    rintro rfl
    exact hi hn
  rw [Function.update_of_ne hne, hn]

/-- The run that is asked to end is the one that was in the slot. -/
theorem current_seize (h : d.Coherent) {slot : Slot} {i k : Nat} (hgrip : d.grip i = none)
    (hoccupant : (d.seat slot).occupant = some k) (j : Nat) (r : Run)
    (hr : (d.runs.modify k .doom)[j]? = some r) (hover : r.isOver = false) :
    (update d.seat slot ⟨some i, none⟩ r.slot).occupant = some j ∨
      ∃ n, update d.grip i (some ⟨slot, some k⟩) n = some ⟨r.slot, some j⟩ := by
  obtain ⟨r₀, hr₀, hslot, hover₀⟩ : ∃ r₀, d.runs[j]? = some r₀ ∧ r.slot = r₀.slot ∧
      r₀.isOver = false := by
    simp only [List.getElem?_modify, Option.map_eq_map, Option.map_eq_some_iff] at hr
    obtain ⟨r₀, hr₀, rfl⟩ := hr
    refine ⟨r₀, hr₀, ?_, ?_⟩
    · split <;> rfl
    · rw [← hover]
      split <;> rfl
  rw [hslot]
  rcases h.current j r₀ hr₀ hover₀ with hseat | ⟨n, hn⟩
  · by_cases hplace : r₀.slot = slot
    · rw [hplace, hoccupant, Option.some.injEq] at hseat
      exact .inr ⟨i, by simp [hplace, hseat]⟩
    · exact .inl (by simp [hplace, hseat])
  · exact .inr ⟨n, update_grip hn (by simp [hgrip]) _⟩

theorem current_spawn (h : d.Coherent) {slot : Slot} {i : Nat} (command : Command)
    (hgrip : d.grip i = some ⟨slot, none⟩) (j : Nat) (r : Run)
    (hr : (d.runs ++ [Run.start slot command])[j]? = some r) (hover : r.isOver = false) :
    (update d.seat slot ⟨none, some d.runs.length⟩ r.slot).occupant = some j ∨
      ∃ n, update d.grip i none n = some ⟨r.slot, some j⟩ := by
  by_cases hj : j < d.runs.length
  · rw [List.getElem?_append_left hj] at hr
    have hplace : r.slot ≠ slot := by
      intro heq
      rw [h.isOver_of_grip hgrip (by simp) (List.mem_of_getElem? hr) heq] at hover
      contradiction
    rcases h.current j r hr hover with hseat | ⟨n, hn⟩
    · exact .inl (by simp [hplace, hseat])
    · exact .inr ⟨n, update_grip hn (by simp [hgrip]) _⟩
  · have hnew : j = d.runs.length := by
      have hlt := (List.getElem?_eq_some_iff.mp hr).1
      simp only [List.length_append, List.length_cons, List.length_nil] at hlt
      omega
    subst hnew
    rw [List.getElem?_concat_length, Option.some.injEq] at hr
    subst hr
    exact .inl (by simp [Run.start])

theorem current_serve (h : d.Coherent) {slot : Slot} (hs : d.Serve slot d') (j : Nat) (r : Run)
    (hr : d'.runs[j]? = some r) (hover : r.isOver = false) :
    (d'.seat r.slot).occupant = some j ∨ ∃ i, d'.grip i = some ⟨r.slot, some j⟩ := by
  cases hs with
  | rest => exact h.current j r hr hover
  | seize i k hfree hgrip hoccupant => exact h.current_seize hgrip hoccupant j r hr hover
  | enter i hfree hgrip hoccupant =>
    rcases h.current j r hr hover with hseat | ⟨n, hn⟩
    · have hplace : r.slot ≠ slot := fun heq => by simp [heq, hoccupant] at hseat
      exact .inl (by simp [hplace, hseat])
    · exact .inr ⟨n, update_grip hn (by simp [hgrip]) _⟩
  | settle i k hgrip hdone =>
    rcases h.current j r hr hover with hseat | ⟨n, hn⟩
    · exact .inl hseat
    · refine .inr ⟨n, update_grip hn (fun hi => ?_) _⟩
      rw [hgrip, Option.some.injEq, Grip.mk.injEq, Option.some.injEq] at hi
      rw [hdone r (hi.2 ▸ hr)] at hover
      contradiction
  | release i awaited hgrip hdone =>
    rcases h.current j r hr hover with hseat | ⟨n, hn⟩
    · by_cases hplace : r.slot = slot
      · exact .inl (by simpa [hplace] using hseat)
      · exact .inl (by simp [hplace, hseat])
    · refine .inr ⟨n, update_grip hn (fun hi => ?_) _⟩
      rw [hgrip, Option.some.injEq, Grip.mk.injEq] at hi
      rw [hdone j r hi.2 hr] at hover
      contradiction
  | spawn i command hgrip => exact h.current_spawn command hgrip j r hr hover

theorem current_move (h : d.Coherent) {k : Nat} {r₀ r' : Run} (hk : d.runs[k]? = some r₀)
    (hmove : r₀.Moves r') (j : Nat) (r : Run) (hr : (d.runs.set k r')[j]? = some r)
    (hover : r.isOver = false) :
    (d.seat r.slot).occupant = some j ∨ ∃ i, d.grip i = some ⟨r.slot, some j⟩ := by
  by_cases hjk : k = j
  · subst hjk
    have hcoherent := h.runs r₀ (List.mem_of_getElem? hk)
    rw [List.getElem?_set_of_eq_some hk, Option.some.injEq] at hr
    rw [← hr, (hcoherent.becomes hmove).slot]
    exact h.current k r₀ hk (hcoherent.isOver_of_moves hmove)
  · rw [List.getElem?_set_ne hjk] at hr
    exact h.current j r hr hover

theorem step (h : d.Coherent) (hs : d.Step d') : d'.Coherent := by
  have hruns := h.forall_coherent hs
  have hbecomes {j : Nat} {r : Run} (hr : d.runs[j]? = some r) := h.becomes hs hr
  cases hs with
  | serve slot hs =>
    exact ⟨h.held_serve hs, h.locked_serve hs, h.seated_serve hs, h.current_serve hs, hruns⟩
  | move k r₀ r' hk hmove =>
    refine ⟨h.held, h.locked, fun place j hseat => ?_, h.current_move hk hmove, hruns⟩
    obtain ⟨r, hr, hslot⟩ := h.seated place j hseat
    obtain ⟨next, hnext, hr⟩ := hbecomes hr
    exact ⟨next, hnext, hr.slot.trans hslot⟩

end Coherent

end Desk

namespace EngineState

open Function (update)

variable {s : EngineState} {i : Nat} {c : Call}

theorem desk_start (files : FileTree) :
    (start files).desk = ⟨fun _ => ⟨none, none⟩, fun _ => none, []⟩ := by
  unfold desk
  congr
  funext slot
  cases slot <;> rfl

theorem desk_setSeat (s : EngineState) (slot : Slot) (seat : Seat) :
    (s.setSeat slot seat).desk = { s.desk with seat := update s.desk.seat slot seat } := by
  cases slot <;> exact congrArg (Desk.mk · s.desk.grip s.runs) (seat_setSeat ..)

theorem desk_setCall (hc : s.calls[i]? = some c) (c' : Call) :
    (s.setCall i c').desk = { s.desk with grip := update s.desk.grip i c'.grip? } := by
  have hlt := (List.getElem?_eq_some_iff.mp hc).1
  have hgrip : (s.setCall i c').desk.grip = update s.desk.grip i c'.grip? := by
    funext k
    by_cases hki : k = i
    · subst hki
      simp [desk, setCall, hlt]
    · simp [desk, setCall, hki, List.getElem?_set_ne (Ne.symm hki)]
  exact congrArg (Desk.mk s.seat · s.runs) hgrip

theorem desk_grip (hc : s.calls[i]? = some c) : s.desk.grip i = c.grip? := by simp [desk, hc]

/-- A call that keeps its grip leaves the slots as they are. -/
theorem desk_setCall_of_grip (hc : s.calls[i]? = some c) {c' : Call} (h : c'.grip? = c.grip?) :
    (s.setCall i c').desk = s.desk := by
  rw [desk_setCall hc, h, ← desk_grip hc, Function.update_eq_self]

theorem desk_modifyRun (s : EngineState) (j : Nat) (f : Run → Run) :
    (s.modifyRun j f).desk = { s.desk with runs := s.runs.modify j f } := rfl

theorem isOver_eq_true {j : Nat} (h : s.isOver j) {r : Run} (hr : s.runs[j]? = some r) :
    r.isOver := by
  simpa [isOver, hr] using h

/-- Taking a lock is a move on the slots. -/
theorem desk_acquire (hc : s.calls[i]? = some c) {slot : Slot} {next : Phase}
    (hfree : (s.seat slot).holder = none) (hgrip : c.grip? = none)
    (hevict : ∀ j, Call.grip? { c with phase := .evict j } = some ⟨slot, some j⟩)
    (hnext : (s.seat slot).occupant = none →
      Call.grip? { c with phase := next } = some ⟨slot, none⟩) :
    s.desk.Serve slot (s.acquire i c slot next).desk := by
  have hnone : s.desk.grip i = none := (desk_grip hc).trans hgrip
  unfold acquire
  split
  case h_1 j hj =>
    have hc' : ((s.setSeat slot ⟨some i, none⟩).modifyRun j .doom).calls[i]? = some c := by
      simpa using hc
    rw [desk_setCall hc', desk_modifyRun, desk_setSeat, hevict, runs_setSeat]
    exact .seize i j hfree hnone hj
  case h_2 hj =>
    have hc' : (s.setSeat slot ⟨some i, none⟩).calls[i]? = some c := by simpa using hc
    rw [desk_setCall hc', desk_setSeat, hnext hj]
    exact .enter i hfree hnone hj

end EngineState

namespace Engine

open EngineState

variable {e : Engine} {s s' : EngineState} {i : Nat} {c : Call}

theorem desk_release (hc : s.calls[i]? = some c) {c' : Call} {slot : Slot} {awaited : Option Nat}
    (hgrip : c.grip? = some ⟨slot, awaited⟩) (hgrip' : c'.grip? = none)
    (hdone : ∀ j r, awaited = some j → s.runs[j]? = some r → r.isOver) :
    s.desk.Serve slot ((s.release slot).setCall i c').desk := by
  have hc' : (s.release slot).calls[i]? = some c := by simpa using hc
  rw [desk_setCall hc', hgrip', release, desk_setSeat]
  exact .release i awaited ((desk_grip hc).trans hgrip) hdone

theorem desk_launchTurn {slot : Slot} {command : Command} {waits : Bool}
    (hc : s.calls[i]? = some c) (herrand : c.errand = .launch slot command waits)
    (h : LaunchTurn e s i c slot command waits s') : s.desk.Serve slot s'.desk := by
  have hgrip (phase : Phase) : Call.grip? { c with phase } =
      (Call.mk (.launch slot command waits) phase).grip? := by rw [herrand]
  have hown {phase : Phase} (hphase : c.phase = phase) :
      c.grip? = (Call.mk (.launch slot command waits) phase).grip? := by rw [← hgrip, ← hphase]
  have hrest {t : EngineState} (hcalls : t.calls = s.calls) (hdesk : t.desk = s.desk) {c' : Call}
      (hsame : c'.grip? = c.grip?) : s.desk.Serve slot (t.setCall i c').desk := by
    rw [desk_setCall_of_grip (hcalls ▸ hc) hsame, hdesk]
    exact .rest
  cases h with
  | prepare files hphase => exact hrest rfl rfl (by rw [hgrip, hown hphase]; rfl)
  | unprepared error hphase => exact hrest rfl rfl (by rw [Call.grip?_finish, hown hphase]; rfl)
  | acquire hphase hfree =>
    exact desk_acquire hc hfree (by rw [hown hphase]; rfl) (fun j => by rw [hgrip]; rfl)
      (fun _ => by rw [hgrip]; rfl)
  | evict j hphase hover =>
    rw [desk_setCall hc, hgrip]
    exact .settle i j ((desk_grip hc).trans (hown hphase)) fun r => isOver_eq_true hover
  | inspect found hphase =>
    refine hrest rfl rfl ?_
    rw [hgrip, hown hphase]
    cases found <;> rfl
  | clear files hphase => exact hrest rfl rfl (by rw [hgrip, hown hphase]; rfl)
  | makeWay files hphase => exact hrest rfl rfl (by rw [hgrip, hown hphase]; rfl)
  | spawn hphase =>
    have hc' : ({ s with runs := s.runs ++ [Run.start slot command] }.setSeat slot
        ⟨none, some s.runs.length⟩).calls[i]? = some c := by simpa using hc
    rw [desk_setCall hc', desk_setSeat, hgrip]
    have hnone : (Call.mk (.launch slot command waits) (if waits then .await s.runs.length
        else .done (.ok (.started s.runs.length command)))).grip? = none := by
      cases waits <;> rfl
    rw [hnone]
    exact .spawn i command ((desk_grip hc).trans (hown hphase))
  | fail error hphase =>
    have hheld : c.grip? = some ⟨slot, none⟩ := by
      simp only [List.mem_cons, List.not_mem_nil, or_false] at hphase
      rcases hphase with h | h | h | h <;> exact hown h
    exact desk_release hc hheld (Call.grip?_finish ..) fun j r hj => by contradiction
  | await j run o hphase => exact hrest rfl rfl (by rw [hgrip, hown hphase]; rfl)

theorem grip?_kill_of_ne {slots : List Slot} {phase : Phase} (h : ∀ j, phase ≠ .evict j) :
    (Call.mk (.kill slots) phase).grip? = none := by
  cases slots with
  | nil => rfl
  | cons slot rest => cases phase <;> first | rfl | exact absurd rfl (h _)

theorem desk_killTurn {slot : Slot} {rest : List Slot} (hc : s.calls[i]? = some c)
    (herrand : c.errand = .kill (slot :: rest)) (h : KillTurn s i c (slot :: rest) s') :
    s.desk.Serve slot s'.desk := by
  obtain ⟨errand, phase⟩ := c
  obtain rfl : errand = .kill (slot :: rest) := herrand
  cases h with
  | evict j _ _ hphase hover =>
    obtain rfl : phase = .evict j := hphase
    exact desk_release hc rfl (Call.grip?_acquire _) fun k r hk =>
      isOver_eq_true (Option.some.inj hk ▸ hover)
  | acquire _ _ hevict hfree hoccupant =>
    exact desk_acquire hc hfree (grip?_kill_of_ne hevict) (fun j => rfl)
      fun hempty => absurd hempty hoccupant
  | pass _ _ hevict hfree hempty =>
    have hsame : (Call.mk (.kill rest) .acquire).grip? =
        (Call.mk (.kill (slot :: rest)) phase).grip? := by
      rw [Call.grip?_acquire, grip?_kill_of_ne hevict]
    rw [desk_setCall_of_grip hc hsame]
    exact .rest

/-- A call that has emptied its slots leaves all of them as they are. -/
theorem desk_finish (hc : s.calls[i]? = some c) (herrand : c.errand = .kill [])
    (answer : Except EngineError Reply) : (s.setCall i (c.finish answer)).desk = s.desk := by
  obtain ⟨errand, phase⟩ := c
  obtain rfl : errand = .kill [] := herrand
  exact desk_setCall_of_grip hc (Call.grip?_finish ..)

theorem grip?_begin (e : Engine) (job : Job) : (e.begin job).grip? = none := by
  unfold begin
  split
  · rfl
  · rfl
  · exact Call.grip?_acquire _

theorem desk_call (s : EngineState) (job : Job) :
    { s with calls := s.calls ++ [e.begin job] : EngineState }.desk = s.desk := by
  have hgrip :
      { s with calls := s.calls ++ [e.begin job] : EngineState }.desk.grip = s.desk.grip := by
    funext k
    by_cases hk : k < s.calls.length
    · simp [desk, List.getElem?_append_left hk]
    · by_cases hlast : k = s.calls.length
      · simp [desk, hlast, grip?_begin]
      · have hlt : ¬ k < (s.calls ++ [e.begin job]).length := by
          rw [List.length_append, List.length_singleton]
          omega
        simp [desk, List.getElem?_eq_none (Nat.not_lt.mp hk),
          List.getElem?_eq_none (Nat.not_lt.mp hlt)]
  exact congrArg (Desk.mk s.seat · s.runs) hgrip

/-- Every step of the engine is a move on its slots. -/
theorem desk_step {a : Action} (h : e.step s a = some s') : s.desk.Step s'.desk := by
  cases turn_of_step h with
  | call job =>
    rw [desk_call]
    exact .serve .encode .rest
  | launch i c slot command waits hc herrand h => exact .serve slot (desk_launchTurn hc herrand h)
  | kill i c slots hc herrand h => cases slots with
    | nil =>
      obtain ⟨⟩ := h
      rw [desk_finish hc herrand]
      exact .serve .encode .rest
    | cons slot rest => exact .serve slot (desk_killTurn hc herrand h)
  | watch j r next hr hnext => exact .move j r next hr (Run.moves_of_watch hnext)
  | emit j r bytes hr halive => exact .move j r _ hr (.emit bytes halive)
  | alter => exact .serve .encode .rest
  | exit j r code hr halive => exact .move j r _ hr (.exit code halive)

end Engine

end Montage
