import Cascade.Proofs.SingleFlight.View
import Mathlib.Data.List.Nodup
/-!
What holds throughout a run. A flight that runs is one that some thread has on its hands, no two
loads share a flight, and the cache knows what each waiting thread waits for.
-/
namespace Cascade.SingleFlight

variable {θ κ ν ε : Type}

/-- What a load with this ending leaves in its slot. -/
def Ending.slot? : Ending ν ε → Option (Slot ν)
  | value v => some (.ready v)
  | _ => none

/-- What a load with this ending tells those who wait for it. -/
def Ending.state : Ending ν ε → FlightState ν ε
  | value v => .done (.ok v)
  | error e => .done (.error e)
  | panic => .abandoned

theorem Ending.state_ne_running (e : Ending ν ε) : e.state ≠ .running := by
  cases e <;> simp [state]

theorem Ending.slot?_ne_loading (e : Ending ν ε) (f : Nat) : e.slot? ≠ some (.loading f) := by
  cases e <;> simp [slot?]

theorem finishEnding_eq (c : SingleFlight θ κ ν ε) (l : Load κ ν ε) :
    System.finishEnding c l =
      c.updateFlight l.flight fun flight => { flight with state := l.ending.state } := by
  obtain ⟨key, f, e⟩ := l
  cases e <;> rfl

section

variable [DecidableEq κ] (c : SingleFlight θ κ ν ε) (l : Load κ ν ε)

@[simp] theorem flights_storeEnding : (System.storeEnding c l).flights = c.flights := by
  obtain ⟨key, f, e⟩ := l
  cases e <;> simp only [System.storeEnding, store, detach] <;> split <;> rfl

@[simp] theorem waiting_storeEnding : (System.storeEnding c l).waiting = c.waiting := by
  obtain ⟨key, f, e⟩ := l
  cases e <;> simp only [System.storeEnding, store, detach] <;> split <;> rfl

/-- Only the slot of its own key can change at the end of a load, and only if the load is in it. -/
theorem slots_storeEnding (k : κ) :
    (System.storeEnding c l).slots.get? k =
      if l.key = k ∧ c.loadOf? k = some l.flight then l.ending.slot? else c.slots.get? k := by
  obtain ⟨key, f, e⟩ := l
  by_cases hk : key = k
  · subst hk
    by_cases h : c.loadOf? key = some f <;> cases e <;>
      simp [System.storeEnding, store, detach, h, Ending.slot?]
  · cases e <;> simp only [System.storeEnding, store, detach] <;> split <;>
      simp [hk, Table.get?_set, Table.get?_erase]

end

/-- A load whose waiters have still to be told. -/
def Stage.untold : Stage θ κ ν ε → List (Load κ ν ε)
  | telling l => [l]
  | _ => []

/-- The loads that a thread has on its hands, those included that are over but have still to be
told. -/
def View.hand (v : View θ κ ν ε) (a : θ) : List (Load κ ν ε) := (v.stage a).untold ++ v.loads a

theorem View.mem_hand_of_loads {v : View θ κ ν ε} {a : θ} {l : Load κ ν ε} (h : l ∈ v.loads a) :
    l ∈ v.hand a := List.mem_append_right _ h

theorem exists_mem_of_map_name {ls ms : List (Load κ ν ε)}
    (h : ls.map Load.name = ms.map Load.name) {l : Load κ ν ε} (hl : l ∈ ls) :
    ∃ m ∈ ms, m.name = l.name := by
  have hm : l.name ∈ ms.map Load.name := h ▸ List.mem_map_of_mem hl
  exact List.mem_map.mp hm

structure Sound [DecidableEq θ] [DecidableEq κ] (v : View θ κ ν ε) : Prop where
  dense : ∀ f, (v.cache.flights.get? f).isSome ↔ f < v.cache.flights.length
  owned : ∀ a, ∀ l ∈ v.hand a, ∃ flight, v.cache.flights.get? l.flight = some flight ∧
    flight.owner = a ∧ flight.state = .running
  manned : ∀ f flight, v.cache.flights.get? f = some flight → flight.state = .running →
    ∃ l ∈ v.hand flight.owner, l.flight = f
  distinct : ∀ a, ((v.hand a).map Load.flight).Nodup
  attached : ∀ key f, v.cache.slots.get? key = some (.loading f) →
    ∃ a, ∃ l ∈ v.loads a, l.name = (key, f)
  noted : ∀ a p, v.stage a = .waiting p → v.cache.waiting.get? a = some p.key ∧
    p.flight < v.cache.flights.length

namespace Sound

variable [DecidableEq θ] [DecidableEq κ] {v w : View θ κ ν ε} {me : θ} {d : Option (Deed κ ν ε)}

theorem start : Sound (System.start : System θ κ ν ε).view where
  dense f := by simp [System.view, System.start, SingleFlight.empty]
  owned a l hl := by
    simp [View.hand, System.view, System.start, System.loads, System.stage, Stage.untold] at hl
  manned f flight h := by simp [System.view, System.start, SingleFlight.empty] at h
  distinct a := by
    simp [View.hand, System.view, System.start, System.loads, System.stage, Stage.untold]
  attached key f h := by simp [System.view, System.start, SingleFlight.empty] at h
  noted a p h := by simp [System.view, System.start, System.stage] at h

/-- The flight of a load is not one that is still to come. -/
theorem flight_lt (h : Sound v) {a : θ} {l : Load κ ν ε} (hl : l ∈ v.hand a) :
    l.flight < v.cache.flights.length := by
  obtain ⟨flight, hf, -, -⟩ := h.owned a l hl
  exact (h.dense _).mp (by simp [hf])

theorem get?_length (h : Sound v) : v.cache.flights.get? v.cache.flights.length = none := by
  simpa using (h.dense v.cache.flights.length).not.mpr (by omega)

/-- Two loads with the same flight are the same. -/
theorem load_eq (h : Sound v) {a b : θ} {l m : Load κ ν ε} (hl : l ∈ v.hand a) (hm : m ∈ v.hand b)
    (he : l.flight = m.flight) : a = b ∧ l = m := by
  obtain ⟨flight, hf, ha, -⟩ := h.owned a l hl
  obtain ⟨flight', hf', hb, -⟩ := h.owned b m hm
  rw [he, hf'] at hf
  obtain rfl : flight' = flight := Option.some.inj hf
  obtain rfl : a = b := ha.symm.trans hb
  exact ⟨rfl, List.inj_on_of_nodup_map (h.distinct a) hl hm he⟩

/-- The other loads of a thread are in flights of their own. -/
theorem mem_of_rest (h : Sound v) {l : Load κ ν ε} {rest : List (Load κ ν ε)}
    (hl : v.loads me = l :: rest) {a : θ} {m : Load κ ν ε}
    (hm : m ∈ Function.update v.loads me rest a) : m ∈ v.loads a ∧ m.flight ≠ l.flight := by
  have hlm : l ∈ v.loads me := by simp [hl]
  by_cases ha : a = me
  · subst ha
    rw [Function.update_self] at hm
    have hd := h.distinct a
    simp only [View.hand, hl, List.map_append, List.map_cons] at hd
    have hnot := (List.nodup_cons.mp hd.of_append_right).1
    exact ⟨by simp [hl, hm], fun e => hnot (e ▸ List.mem_map_of_mem hm)⟩
  · rw [Function.update_of_ne ha] at hm
    exact ⟨hm, fun e => ha (h.load_eq (View.mem_hand_of_loads hm)
      (View.mem_hand_of_loads hlm) e).1⟩

/-- A change that leaves the flights and what threads have on their hands as they are, and puts no
new load into a slot. -/
theorem of_same (h : Sound v) (hf : w.cache.flights = v.cache.flights) (hh : w.hand = v.hand)
    (hs : ∀ key f, w.cache.slots.get? key = some (.loading f) →
      ∃ a, ∃ l ∈ w.loads a, l.name = (key, f))
    (hw : ∀ a p, w.stage a = .waiting p → w.cache.waiting.get? a = some p.key ∧
      p.flight < w.cache.flights.length) : Sound w := by
  refine ⟨?_, ?_, ?_, ?_, hs, hw⟩
  · rw [hf]; exact h.dense
  · rw [hf, hh]; exact h.owned
  · rw [hf, hh]; exact h.manned
  · rw [hh]; exact h.distinct

omit [DecidableEq κ] in
theorem hand_update_stage (h : (v.stage me).untold = []) {st : Stage θ κ ν ε} (hst : st.untold = [])
    (c : SingleFlight θ κ ν ε) :
    View.hand ⟨c, v.loads, Function.update v.stage me st⟩ = v.hand := by
  funext a
  by_cases ha : a = me
  · subst ha; simp [View.hand, h, hst]
  · simp [View.hand, ha]

theorem publishes (h : Sound v) (f : Nat) (x : ν) :
    Sound { v with cache := v.cache.publish f x } := by
  refine ⟨?_, ?_, ?_, h.distinct, by simpa [publish] using h.attached,
    by simpa [publish] using h.noted⟩
  · intro g
    simp only [publish, get?_updateFlight, length_updateFlight]
    split <;> simpa using h.dense g
  · intro a l hl
    obtain ⟨flight, hf, ho, hr⟩ := h.owned a l hl
    simp only [publish, get?_updateFlight, hf]
    split
    · exact ⟨_, rfl, ho, hr⟩
    · exact ⟨flight, rfl, ho, hr⟩
  · intro g flight hg hr
    simp only [publish, get?_updateFlight] at hg
    split at hg
    · obtain ⟨old, hold, rfl⟩ := Option.map_eq_some_iff.mp hg
      exact h.manned g old hold hr
    · exact h.manned g flight hg hr

theorem evicts (h : Sound v) (key : κ) : Sound { v with cache := v.cache.invalidate key } := by
  refine h.of_same rfl rfl ?_ h.noted
  intro k f hk
  simp only [invalidate, Table.get?_erase] at hk
  split at hk
  · exact absurd hk (by simp)
  · exact h.attached k f hk

theorem clears (h : Sound v) : Sound { v with cache := v.cache.clear } := by
  refine h.of_same rfl rfl ?_ h.noted
  intro k f hk
  exact absurd hk (by simp [clear])

omit [DecidableEq κ] in
theorem hand_begins (hst : v.stage me = .ready) (l : Load κ ν ε) (c : SingleFlight θ κ ν ε) :
    View.hand ⟨c, Function.update v.loads me (l :: v.loads me), v.stage⟩ =
      Function.update v.hand me (l :: v.hand me) := by
  funext a
  by_cases ha : a = me
  · subst ha; simp [View.hand, hst, Stage.untold]
  · simp [View.hand, ha]

omit [DecidableEq κ] in
theorem hand_ends (hst : v.stage me = .ready) {l : Load κ ν ε} {rest : List (Load κ ν ε)}
    (hl : v.loads me = l :: rest) (c : SingleFlight θ κ ν ε) :
    View.hand ⟨c, Function.update v.loads me rest, Function.update v.stage me (.telling l)⟩ =
      v.hand := by
  funext a
  by_cases ha : a = me
  · subst ha; simp [View.hand, hst, hl, Stage.untold]
  · simp [View.hand, ha]

omit [DecidableEq κ] in
theorem hand_tells (c : SingleFlight θ κ ν ε) :
    View.hand ⟨c, v.loads, Function.update v.stage me .ready⟩ =
      Function.update v.hand me (v.loads me) := by
  funext a
  by_cases ha : a = me
  · subst ha; simp [View.hand, Stage.untold]
  · simp [View.hand, ha]

theorem begins (h : Sound v) (hst : v.stage me = .ready) (key : κ) (ending : Ending ν ε) :
    Sound ⟨{ v.cache with
        slots := v.cache.slots.set key (.loading v.cache.flights.length)
        flights := v.cache.flights.set v.cache.flights.length ⟨me, none, .running⟩ },
      Function.update v.loads me (⟨key, v.cache.flights.length, ending⟩ :: v.loads me),
      v.stage⟩ := by
  have hlen : (v.cache.flights.set v.cache.flights.length ⟨me, none, .running⟩).length =
      v.cache.flights.length + 1 := by simp [Table.length_set, h.get?_length]
  refine ⟨?_, ?_, ?_, ?_, ?_, ?_⟩
  · intro f
    simp only [Table.get?_set, hlen]
    split
    · subst f; simp
    · rw [h.dense]; omega
  · intro a l hl
    rw [hand_begins hst] at hl
    by_cases he : l.flight = v.cache.flights.length
    · obtain rfl : a = me := by
        by_contra ha
        rw [Function.update_of_ne ha] at hl
        exact absurd he (Nat.ne_of_lt (h.flight_lt hl))
      exact ⟨_, by rw [he]; exact Table.get?_set_self _ _ _, rfl, rfl⟩
    · have hold : l ∈ v.hand a := by
        by_cases ha : a = me
        · subst ha
          rw [Function.update_self, List.mem_cons] at hl
          exact hl.resolve_left fun e => he (by rw [e])
        · rwa [Function.update_of_ne ha] at hl
      simp only [Table.get?_set_ne _ (Ne.symm he)]
      exact h.owned a l hold
  · intro f flight hf hr
    rw [hand_begins hst]
    simp only [Table.get?_set] at hf
    split at hf
    next he =>
      obtain rfl := Option.some.inj hf
      exact ⟨_, by rw [Function.update_self]; exact List.mem_cons_self, he⟩
    next he =>
      obtain ⟨l, hl, hlf⟩ := h.manned f flight hf hr
      refine ⟨l, ?_, hlf⟩
      by_cases ha : flight.owner = me
      · rw [ha] at hl ⊢
        rw [Function.update_self]
        exact List.mem_cons_of_mem _ hl
      · rwa [Function.update_of_ne ha]
  · intro a
    rw [hand_begins hst]
    by_cases ha : a = me
    · subst ha
      rw [Function.update_self, List.map_cons, List.nodup_cons]
      refine ⟨?_, h.distinct a⟩
      intro hm
      obtain ⟨l, hl, he⟩ := List.mem_map.mp hm
      exact absurd he (Nat.ne_of_lt (h.flight_lt hl))
    · rw [Function.update_of_ne ha]
      exact h.distinct a
  · intro k f hk
    simp only [Table.get?_set] at hk
    split at hk
    next he =>
      obtain rfl : v.cache.flights.length = f := by simpa using hk
      exact ⟨me, ⟨key, v.cache.flights.length, ending⟩, by simp, by simp [Load.name, he]⟩
    next he =>
      obtain ⟨a, l, hl, hn⟩ := h.attached k f hk
      refine ⟨a, l, ?_, hn⟩
      by_cases ha : a = me
      · subst ha
        simp [hl]
      · simpa [ha] using hl
  · intro a p hp
    obtain ⟨hw, hlt⟩ := h.noted a p hp
    exact ⟨hw, by simp only [hlen]; omega⟩

theorem ends (h : Sound v) (hst : v.stage me = .ready) {l : Load κ ν ε} {rest : List (Load κ ν ε)}
    (hl : v.loads me = l :: rest) :
    Sound ⟨System.storeEnding v.cache l, Function.update v.loads me rest,
      Function.update v.stage me (.telling l)⟩ := by
  refine h.of_same (flights_storeEnding _ _) (hand_ends hst hl _) ?_ ?_
  · intro k f hk
    simp only [slots_storeEnding] at hk
    split at hk
    · exact absurd hk (l.ending.slot?_ne_loading f)
    next hne =>
      obtain ⟨a, m, hm, hn⟩ := h.attached k f hk
      refine ⟨a, m, ?_, hn⟩
      by_cases ha : a = me
      · subst ha
        rw [hl, List.mem_cons] at hm
        simp only [Function.update_self]
        refine hm.resolve_left ?_
        rintro rfl
        obtain ⟨rfl, rfl⟩ := Prod.mk.inj hn
        exact hne ⟨rfl, loadOf?_eq_some.mpr hk⟩
      · simpa only [Function.update_of_ne ha] using hm
  · intro a p hp
    by_cases ha : a = me
    · subst ha
      simp at hp
    · simp only [Function.update_of_ne ha] at hp
      simpa using h.noted a p hp

theorem tells (h : Sound v) {l : Load κ ν ε} (hst : v.stage me = .telling l) :
    Sound { v with
      cache := System.finishEnding v.cache l
      stage := Function.update v.stage me .ready } := by
  have hme : v.hand me = l :: v.loads me := by simp [View.hand, hst, Stage.untold]
  have hl : l ∈ v.hand me := by rw [hme]; exact List.mem_cons_self
  have hnd := h.distinct me
  rw [hme, List.map_cons, List.nodup_cons] at hnd
  have hkeep {a : θ} {m : Load κ ν ε} (hm : m ∈ v.hand a) (hne : m.flight ≠ l.flight) :
      m ∈ Function.update v.hand me (v.loads me) a := by
    by_cases ha : a = me
    · subst ha
      rw [hme, List.mem_cons] at hm
      rw [Function.update_self]
      exact hm.resolve_left fun e => hne (by rw [e])
    · rwa [Function.update_of_ne ha]
  have hback {a : θ} {m : Load κ ν ε} (hm : m ∈ Function.update v.hand me (v.loads me) a) :
      m ∈ v.hand a ∧ m.flight ≠ l.flight := by
    by_cases ha : a = me
    · subst ha
      rw [Function.update_self] at hm
      refine ⟨View.mem_hand_of_loads hm, fun e => hnd.1 ?_⟩
      rw [← e]
      exact List.mem_map_of_mem hm
    · rw [Function.update_of_ne ha] at hm
      exact ⟨hm, fun e => ha (h.load_eq hm hl e).1⟩
  refine ⟨?_, ?_, ?_, ?_, ?_, ?_⟩
  · intro f
    simp only [finishEnding_eq, get?_updateFlight, length_updateFlight]
    split <;> simpa using h.dense f
  · intro a m hm
    rw [hand_tells] at hm
    obtain ⟨hm, hne⟩ := hback hm
    simp only [finishEnding_eq, get?_updateFlight, Ne.symm hne, ↓reduceIte]
    exact h.owned a m hm
  · intro f flight hf hr
    rw [hand_tells]
    simp only [finishEnding_eq, get?_updateFlight] at hf
    split at hf
    · obtain ⟨old, -, rfl⟩ := Option.map_eq_some_iff.mp hf
      exact absurd hr l.ending.state_ne_running
    next he =>
      obtain ⟨m, hm, rfl⟩ := h.manned f flight hf hr
      exact ⟨m, hkeep hm (Ne.symm he), rfl⟩
  · intro a
    rw [hand_tells]
    by_cases ha : a = me
    · subst ha
      rw [Function.update_self]
      exact hnd.2
    · rw [Function.update_of_ne ha]
      exact h.distinct a
  · simpa [finishEnding_eq] using h.attached
  · intro a p hp
    by_cases ha : a = me
    · subst ha
      simp at hp
    · simp only [Function.update_of_ne ha] at hp
      simpa [finishEnding_eq] using h.noted a p hp

theorem waits (h : Sound v) (hst : v.stage me = .ready) {p : Pending θ κ ν ε}
    (hf : (v.cache.flights.get? p.flight).isSome) :
    Sound { v with
      cache := { v.cache with waiting := v.cache.waiting.set me p.key }
      stage := Function.update v.stage me (.waiting p) } := by
  refine h.of_same rfl (hand_update_stage (by simp [hst, Stage.untold]) rfl _) h.attached ?_
  intro a q hq
  by_cases ha : a = me
  · subst ha
    obtain rfl : p = q := by simpa using hq
    exact ⟨Table.get?_set_self _ _ _, (h.dense _).mp hf⟩
  · simp only [Function.update_of_ne ha] at hq
    simp only [Table.get?_set_ne _ (Ne.symm ha)]
    exact h.noted a q hq

theorem wakes (h : Sound v) {p : Pending θ κ ν ε} (hst : v.stage me = .waiting p) :
    Sound { v with
      cache := v.cache.awaken me
      stage := Function.update v.stage me .ready } := by
  refine h.of_same rfl (hand_update_stage (by simp [hst, Stage.untold]) rfl _) h.attached ?_
  intro a q hq
  by_cases ha : a = me
  · subst ha
    simp at hq
  · simp only [Function.update_of_ne ha] at hq
    simp only [awaken, Table.get?_erase, Ne.symm ha, ↓reduceIte]
    exact h.noted a q hq

theorem replans (h : Sound v) {ls : List (Load κ ν ε)}
    (hn : ls.map Load.name = (v.loads me).map Load.name) :
    Sound { v with loads := Function.update v.loads me ls } := by
  let w : View θ κ ν ε := { v with loads := Function.update v.loads me ls }
  have hloads (a : θ) : (w.loads a).map Load.name = (v.loads a).map Load.name := by
    by_cases ha : a = me
    · subst ha; simpa [w] using hn
    · simp [w, ha]
  have hhand (a : θ) : (w.hand a).map Load.name = (v.hand a).map Load.name := by
    simp only [View.hand, List.map_append, hloads]
    rfl
  refine ⟨h.dense, ?_, ?_, ?_, ?_, h.noted⟩
  · intro a l hl
    obtain ⟨m, hm, hml⟩ := exists_mem_of_map_name (hhand a) hl
    rw [← (Prod.mk.inj hml).2]
    exact h.owned a m hm
  · intro f flight hf hr
    obtain ⟨l, hl, rfl⟩ := h.manned f flight hf hr
    obtain ⟨m, hm, hml⟩ := exists_mem_of_map_name (hhand _).symm hl
    exact ⟨m, hm, (Prod.mk.inj hml).2⟩
  · intro a
    have hd := h.distinct a
    have hsnd (ls : List (Load κ ν ε)) : ls.map Load.flight = (ls.map Load.name).map Prod.snd := by
      simp [Function.comp_def, Load.name]
    rw [hsnd, ← hhand a, ← hsnd] at hd
    exact hd
  · intro k f hk
    obtain ⟨a, l, hl, hln⟩ := h.attached k f hk
    obtain ⟨m, hm, hml⟩ := exists_mem_of_map_name (hloads a).symm hl
    exact ⟨a, m, hm, hml.trans hln⟩

/-- Whatever a step does, it leaves a sound system sound. -/
theorem effect (h : Sound v) (he : Effect v me d w) : Sound w := by
  cases he with
  | nothing => exact h
  | publishes f x => exact h.publishes f x
  | evicts key => exact h.evicts key
  | clears => exact h.clears
  | begins ending hp hs => exact h.begins hp _ ending
  | waits hp hs hf ho hd => exact h.waits hp (by simp [hf])
  | ends hp hl => exact h.ends hp hl
  | tells hl => exact h.tells hl
  | wakes hp hf hd => exact h.wakes hp

end Sound

end Cascade.SingleFlight
