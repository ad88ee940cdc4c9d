import Cascade.Proofs.SingleFlight.History
import Cascade.SingleFlight.Scenario
/-!
What a cache that loads each key once promises to those who ask: one load at a time for every key,
no value from before an eviction, nothing left of a load that failed, and the result of a load for
everyone who waited for it.
-/
namespace Cascade.SingleFlight

variable {θ κ ν ε : Type}

theorem Thread.events_advance (t : Thread θ κ ν ε) : t.advance.events = t.events := by
  rcases t with ⟨_ | ⟨f, fs⟩, p, es⟩ <;> rfl

section Logs

variable [DecidableEq θ]

/-- A move of the thread `me` leaves the other threads as they are, and every log goes on. -/
structure Keeps (s : System θ κ ν ε) (me : θ) (s' : System θ κ ν ε) : Prop where
  others : ∀ a t, a ≠ me → s.threads.get? a = some t → s'.threads.get? a = some t
  logs : ∀ a, s.events a <+: s'.events a

namespace Keeps

variable {s s' : System θ κ ν ε} {me a : θ} {t u : Thread θ κ ν ε}

theorem refl (s : System θ κ ν ε) (me : θ) : Keeps s me s :=
  ⟨fun _ _ _ h => h, fun _ => List.prefix_rfl⟩

theorem put (ht : s.threads.get? me = some t) (he : t.events <+: u.events)
    (c : SingleFlight θ κ ν ε) : Keeps s me (s.put me u c) := by
  refine ⟨?_, ?_⟩
  · intro a w ha hw
    simpa [System.put, Table.get?_set_ne _ (Ne.symm ha)] using hw
  · intro a
    by_cases ha : a = me
    · subst ha
      simpa [System.events, System.put, ht] using he
    · simp [System.events, System.put, Table.get?_set_ne _ (Ne.symm ha)]

/-- A new thread changes none that is there. -/
theorem fork (h : Keeps s me s') (ha : s'.threads.get? a = none)
    (commands : List (Command θ κ ν ε)) (c : SingleFlight θ κ ν ε) :
    Keeps s me (s'.put a (.start commands) c) := by
  refine ⟨?_, ?_⟩
  · intro b w hb hw
    have hw' := h.others b w hb hw
    have hne : a ≠ b := by
      rintro rfl
      simp [ha] at hw'
    simpa [System.put, Table.get?_set_ne _ hne] using hw'
  · intro b
    by_cases hb : a = b
    · subst hb
      have hnil : s'.events a = [] := by simp [System.events, ha]
      have hs := h.logs a
      rw [hnil, List.prefix_nil] at hs
      simp [hs]
    · have hs : (s'.put a (.start commands) c).events b = s'.events b := by
        simp [System.events, System.put, Table.get?_set_ne _ hb]
      rw [hs]
      exact h.logs b

variable [DecidableEq κ]

theorem request (ht : s.threads.get? me = some t) (he : t.events <+: u.events) (key : κ)
    (body : List (Command θ κ ν ε)) (ending : Ending ν ε) :
    Keeps s me (s.request me u s.cache key body ending) := by
  unfold System.request
  split
  · exact put ht (he.trans (List.prefix_append _ _)) _
  · exact put ht (he.trans (List.prefix_append _ _)) _
  · exact put ht (he.trans (List.prefix_append _ _)) _
  · exact put ht (by exact he) _
  · exact put ht (he.trans (List.prefix_append _ _)) _

theorem execute (ht : s.threads.get? me = some t) (command : Command θ κ ν ε) :
    Keeps s me (s.execute me t command) := by
  have hadv : t.events <+: t.advance.events := by simp [t.events_advance]
  have hlog (e : Event θ κ ν ε) : t.events <+: (t.advance.log e).events :=
    hadv.trans (List.prefix_append _ _)
  unfold System.execute
  cases command with
  | get key body ending => exact request ht hadv key body ending
  | publish v => exact put ht (hlog _) _
  | peek key => exact put ht (hlog _) _
  | invalidate key => exact put ht (hlog _) _
  | clear => exact put ht (hlog _) _
  | keys => exact put ht (hlog _) _
  | await keys =>
    simp only
    split
    · exact put ht hadv _
    · exact refl s me
  | fork a commands =>
    simp only
    split
    · exact put ht hadv _
    next h =>
      refine (put ht hadv _).fork ?_ commands _
      have hna : s.threads.get? a = none := by simpa [Table.contains] using h
      have hne : me ≠ a := by
        rintro rfl
        simp [ht] at hna
      simpa [System.put, Table.get?_set_ne _ hne] using hna
  | join a =>
    simp only
    split
    · exact put ht (hlog _) _
    · exact refl s me

omit [DecidableEq κ] in
theorem resume (ht : s.threads.get? me = some t) (p : Pending θ κ ν ε) :
    Keeps s me (s.resume me t p) := by
  unfold System.resume
  split
  · exact refl s me
  · split
    · exact refl s me
    · exact put ht (List.prefix_append _ _) _
    · exact put ht (by exact List.prefix_rfl) _

theorem endLoad (ht : s.threads.get? me = some t) (f : Frame θ κ ν ε) :
    Keeps s me (s.endLoad me t f) := by
  unfold System.endLoad
  simp only
  split
  · exact put ht (by exact List.prefix_rfl) _
  · exact put ht (by exact List.prefix_rfl) _

theorem step (s : System θ κ ν ε) (me : θ) : Keeps s me (s.step me) := by
  unfold System.step
  split
  · exact refl s me
  next ht =>
    split
    · exact resume ht _
    · exact put ht (List.prefix_append _ _) _
    · split
      · exact refl s me
      · split
        · exact execute ht _
        · exact endLoad ht _

end Keeps

end Logs

/-- The content of a slot comes from the load of its key in the flight `f`. -/
def StemsFrom (deeds : List (Deed κ ν ε)) (key : κ) (f : Nat) : Slot ν → Prop
  | .loading g => g = f
  | .ready x => .ends ⟨key, f, .value x⟩ ∈ deeds

section

variable [DecidableEq θ] [DecidableEq κ]

/-- What holds of a state, and of the deeds that led to it. -/
structure Exact (deeds : List (Deed κ ν ε)) (s : System θ κ ν ε) : Prop where
  /-- The slot of a key that is being loaded belongs to one load of one thread. -/
  one_loader : ∀ key f, s.cache.slots.get? key = some (.loading f) →
    ∃ a l, l ∈ s.loads a ∧ l.name = (key, f) ∧ ((s.loads a).map Load.flight).count f = 1 ∧
      ∀ b m, m ∈ s.loads b → m.flight = f → b = a ∧ m = l
  /-- A value in a slot is that of a load which began when the key was last evicted or later. -/
  ready : ∀ key x, s.cache.slots.get? key = some (.ready x) →
    ∃ f, Undisturbed deeds key f ∧ .ends ⟨key, f, .value x⟩ ∈ deeds
  /-- No slot comes from a load that has ended without a value. -/
  failed : ∀ l, .ends l ∈ deeds → (∀ x, l.ending ≠ .value x) → ∀ key slot,
    s.cache.slots.get? key = some slot → ¬ StemsFrom deeds key l.flight slot
  /-- Whoever waits goes on waiting until the load of that flight has ended, and is then answered
  with its result; if the load was abandoned there is none. -/
  served : ∀ a p, s.stage a = .waiting p → ∀ later s', Run s later s' →
    s'.stage a = .waiting p ∧ s'.events a = s.events a ∨
      ∃ l, .ends l ∈ deeds ++ later ∧ l.name = (p.key, p.flight) ∧
        (l.ending = .panic ∨ s.events a ++ [.answer p.key (.ofEnding l.ending)] <+: s'.events a)
  /-- A flight that has ended keeps nobody waiting. -/
  released : ∀ a p flight, s.stage a = .waiting p → s.cache.flights.get? p.flight = some flight →
    flight.state ≠ .running → (s.step a).stage a = .ready
  /-- Who asks for a value that is there gets it, and no load begins. -/
  hit : ∀ a load key body ending commands fs events x,
    s.threads.get? a = some ⟨⟨load, .get key body ending :: commands⟩ :: fs, .ready, events⟩ →
    s.cache.slots.get? key = some (.ready x) →
    s.step a = s.put a ⟨⟨load, commands⟩ :: fs, .ready, events ++ [.answer key (.value x)]⟩ s.cache

variable {s s' : System θ κ ν ε} {a : θ} {p : Pending θ κ ν ε}
variable {deeds later : List (Deed κ ν ε)}

/-- A slot that is being loaded is that of a load which has not ended. -/
theorem Accounted.not_ended {v : View θ κ ν ε} (h : Accounted deeds v) {key : κ} {l : Load κ ν ε}
    (hl : .ends l ∈ deeds) : v.cache.slots.get? key ≠ some (.loading l.flight) := by
  intro hs
  obtain ⟨a, m, hm, hn⟩ := h.sound.attached key l.flight hs
  exact (h.logged.live a m hm).2 l hl (Prod.mk.inj hn).2.symm

theorem Accounted.not_stemsFrom {v : View θ κ ν ε} (h : Accounted deeds v) {key : κ}
    {l : Load κ ν ε} {slot : Slot ν} (hl : .ends l ∈ deeds) (hv : ∀ x, l.ending ≠ .value x)
    (hs : v.cache.slots.get? key = some slot) : ¬ StemsFrom deeds key l.flight slot := by
  cases slot with
  | loading g =>
    rintro rfl
    exact h.not_ended hl hs
  | ready x =>
    intro hx
    have he := h.logged.ended_inj l _ hl hx rfl
    exact hv x (by rw [he])

/-- A flight that has ended while a thread waits for it is that of a load of its key. -/
theorem Accounted.ended_of_waiting {v : View θ κ ν ε} (h : Accounted deeds v)
    (hw : v.stage a = .waiting p) {flight : Flight θ ν ε}
    (hf : v.cache.flights.get? p.flight = some flight) (hr : flight.state ≠ .running) :
    ∃ l, .ends l ∈ deeds ∧ l.name = (p.key, p.flight) ∧ flight.state = l.ending.state := by
  obtain ⟨l, hl, hlf, hst⟩ := h.logged.finished p.flight flight hf hr
  have hbegun := h.logged.ended l hl
  rw [hlf] at hbegun
  have hk := h.logged.begun_inj _ _ _ hbegun (h.logged.awaited a p hw)
  exact ⟨l, hl, by rw [Load.name, hk, hlf], hst⟩

omit [DecidableEq κ] in
theorem System.get?_of_waiting (h : s.stage a = .waiting p) :
    ∃ t, s.threads.get? a = some t ∧ t.stage = .waiting p := by
  cases ht : s.threads.get? a with
  | none => simp [System.stage, ht] at h
  | some t => exact ⟨t, rfl, by simpa [System.stage, ht] using h⟩

theorem Ending.state_eq_done {e : Ending ν ε} {r : Except ε ν} (h : e.state = .done r) :
    Answer.ofEnding e = .ofResult r := by
  cases e <;> simp only [Ending.state, FlightState.done.injEq, reduceCtorEq] at h <;> subst h <;>
    rfl

theorem Ending.state_eq_abandoned {e : Ending ν ε} (h : e.state = .abandoned) : e = .panic := by
  cases e <;> simp [Ending.state] at h
  rfl

theorem System.step_of_waiting {t : Thread θ κ ν ε} (ht : s.threads.get? a = some t)
    (hw : t.stage = .waiting p) : s.step a = s.resume a t p := by
  simp [System.step, ht, hw]

/-- The next step of a thread that waits. -/
theorem Accounted.serves (h : Accounted deeds s.view) (hw : s.stage a = .waiting p)
    {flight : Flight θ ν ε} (hf : s.cache.flights.get? p.flight = some flight) :
    flight.state = .running ∧ s.step a = s ∨
      (s.step a).stage a = .ready ∧ ∃ l, .ends l ∈ deeds ∧ l.name = (p.key, p.flight) ∧
        (l.ending = .panic ∨
          (s.step a).events a = s.events a ++ [.answer p.key (.ofEnding l.ending)]) := by
  obtain ⟨t, ht, htw⟩ := System.get?_of_waiting hw
  rw [System.step_of_waiting ht htw]
  cases hst : flight.state with
  | running => exact .inl ⟨rfl, by simp [System.resume, hf, hst]⟩
  | done r =>
    obtain ⟨l, hl, hn, he⟩ := h.ended_of_waiting hw hf (by simp [hst])
    have hput : s.resume a t p =
        s.put a (t.answered p.key (.ofResult r)) (s.cache.awaken a) := by
      simp [System.resume, hf, hst]
    refine .inr ⟨by simp [hput, System.put, System.stage], l, hl, hn, .inr ?_⟩
    rw [hput, Ending.state_eq_done (he.symm.trans hst)]
    simp [System.events, System.put, ht, Thread.answered, Thread.log]
  | abandoned =>
    obtain ⟨l, hl, hn, he⟩ := h.ended_of_waiting hw hf (by simp [hst])
    have hput : s.resume a t p = s.put a (t.askAgain p) (s.cache.awaken a) := by
      simp [System.resume, hf, hst]
    exact .inr ⟨by simp [hput, System.put, System.stage], l, hl, hn,
      .inl (Ending.state_eq_abandoned (he.symm.trans hst))⟩

theorem Accounted.flight_of_waiting (h : Accounted deeds s.view) (hw : s.stage a = .waiting p) :
    ∃ flight, s.cache.flights.get? p.flight = some flight :=
  Option.isSome_iff_exists.mp ((h.sound.dense _).mpr (h.sound.noted a p hw).2)

/-- What comes of a request that waits, however the run goes on. -/
theorem Run.served (h : Run .start deeds s) (hw : s.stage a = .waiting p) (hl : Run s later s') :
    s'.stage a = .waiting p ∧ s'.events a = s.events a ∨
      ∃ l, .ends l ∈ deeds ++ later ∧ l.name = (p.key, p.flight) ∧
        (l.ending = .panic ∨
          s.events a ++ [.answer p.key (.ofEnding l.ending)] <+: s'.events a) := by
  induction hl with
  | refl => exact .inl ⟨hw, rfl⟩
  | @step later s' hl me ih =>
    rcases ih with ⟨hw', he⟩ | ⟨l, hm, hn, hans⟩
    · by_cases hme : a = me
      · subst hme
        have hacc := (h.trans hl).accounted
        obtain ⟨flight, hf⟩ := hacc.flight_of_waiting hw'
        rcases hacc.serves hw' hf with ⟨-, hs⟩ | ⟨-, l, hm, hn, hans⟩
        · exact .inl ⟨by rw [hs]; exact hw', by rw [hs]; exact he⟩
        · refine .inr ⟨l, by simp only [List.mem_append] at hm ⊢; tauto, hn, ?_⟩
          exact hans.imp_right fun e => by simp [e, he]
      · obtain ⟨t, ht, hst⟩ := System.get?_of_waiting hw'
        have ht' := (Keeps.step s' me).others a t hme ht
        refine .inl ⟨by simp [System.stage, ht', hst], ?_⟩
        rw [← he]
        simp [System.events, ht, ht']
    · refine .inr ⟨l, by simp only [List.mem_append] at hm ⊢; tauto, hn, ?_⟩
      exact hans.imp_right fun e => e.trans ((Keeps.step s' me).logs a)
  | @fork later s' hl b commands hb ih =>
    have hk : Keeps s' b (s'.put b (.start commands) s'.cache) :=
      (Keeps.refl s' b).fork hb commands _
    rcases ih with ⟨hw', he⟩ | ⟨l, hm, hn, hans⟩
    · obtain ⟨t, ht, hst⟩ := System.get?_of_waiting hw'
      have hne : a ≠ b := by
        rintro rfl
        simp [ht] at hb
      have ht' := hk.others a t hne ht
      refine .inl ⟨by simp [System.stage, ht', hst], ?_⟩
      rw [← he]
      simp [System.events, ht, ht']
    · exact .inr ⟨l, hm, hn, hans.imp_right fun e => e.trans (hk.logs a)⟩
  | @replan later s' hl b t u ht hu ih =>
    have hstage : (s'.put b u s'.cache).stage a = s'.stage a := by
      by_cases hab : b = a
      · subst hab
        simp [System.stage, System.put, ht, hu.1]
      · simp [System.stage, System.put, Table.get?_set_ne _ hab]
    have hevents : (s'.put b u s'.cache).events a = s'.events a := by
      by_cases hab : b = a
      · subst hab
        simp [System.events, System.put, ht, hu.2.1]
      · simp [System.events, System.put, Table.get?_set_ne _ hab]
    rwa [hstage, hevents]

theorem System.step_get_of_ready {load : Option (Load κ ν ε)} {key : κ} {x : ν}
    {body commands : List (Command θ κ ν ε)} {ending : Ending ν ε} {fs : List (Frame θ κ ν ε)}
    {events : List (Event θ κ ν ε)}
    (ht : s.threads.get? a = some ⟨⟨load, .get key body ending :: commands⟩ :: fs, .ready, events⟩)
    (hs : s.cache.slots.get? key = some (.ready x)) :
    s.step a =
      s.put a ⟨⟨load, commands⟩ :: fs, .ready, events ++ [.answer key (.value x)]⟩ s.cache := by
  simp [System.step, ht, System.execute, System.request, claim_ready hs, Thread.advance,
    Thread.answered, Thread.log]

theorem Sound.one_loader {v : View θ κ ν ε} (h : Sound v) {key : κ} {f : Nat}
    (hs : v.cache.slots.get? key = some (.loading f)) :
    ∃ a l, l ∈ v.loads a ∧ l.name = (key, f) ∧ ((v.loads a).map Load.flight).count f = 1 ∧
      ∀ b m, m ∈ v.loads b → m.flight = f → b = a ∧ m = l := by
  obtain ⟨a, l, hl, hn⟩ := h.attached key f hs
  obtain ⟨-, rfl⟩ := Prod.mk.inj hn
  refine ⟨a, l, hl, hn, ?_, ?_⟩
  · have hd := h.distinct a
    rw [View.hand, List.map_append] at hd
    exact List.count_eq_one_of_mem hd.of_append_right (List.mem_map_of_mem hl)
  · intro b m hm he
    exact h.load_eq (View.mem_hand_of_loads hm) (View.mem_hand_of_loads hl) he

/-- Whatever the order of steps, evictions included, every load is made for everyone who asks while
it runs, and only what was loaded since the last eviction is kept. -/
theorem Run.exact (h : Run .start deeds s) : Exact deeds s where
  one_loader key f hs := h.accounted.sound.one_loader hs
  ready key x hs := h.accounted.rooted.ready key x hs
  failed l hl hv key slot hs := h.accounted.not_stemsFrom hl hv hs
  served a p hw later s' hl := h.served hw hl
  released a p flight hw hf hr := by
    rcases h.accounted.serves hw hf with ⟨hrun, -⟩ | ⟨hready, -⟩
    · exact absurd hrun hr
    · exact hready
  hit a load key body ending commands fs events x ht hs := System.step_get_of_ready ht hs

end

/-- Thread 0 loads a key for which thread 1 waits and which thread 2 evicts. -/
def sharing : System Nat Nat Nat Nat :=
  ((System.start.put 0 (.start [.get 0 [] (.value 7)]) .empty).put 1
    (.start [.get 0 [] (.value 8)]) .empty).put 2 (.start [.invalidate 0]) .empty

/-- The load is shared with the thread that waits and is not kept. -/
theorem sharing_exact : ∃ deeds, Exact deeds ([0, 1, 2, 0, 0, 1].foldl System.step sharing) ∧
    ([0, 1, 2, 0, 0, 1].foldl System.step sharing).events 1 = [.answer 0 (.value 7)] ∧
    ([0, 1, 2, 0, 0, 1].foldl System.step sharing).cache.slots.get? 0 = none := by
  have hstart : Run .start [] sharing :=
    ((Run.refl.fork (a := 0) _ rfl).fork (a := 1) _ rfl).fork (a := 2) _ rfl
  obtain ⟨deeds, hrun⟩ := hstart.turns [0, 1, 2, 0, 0, 1]
  exact ⟨deeds, Run.exact hrun, rfl, rfl⟩

end Cascade.SingleFlight
