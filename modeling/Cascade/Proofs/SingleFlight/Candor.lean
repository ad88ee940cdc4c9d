import Cascade.Proofs.SingleFlight.Deadlock
import Cascade.Proofs.SingleFlight.Exactness
/-!
Which calls are answered before the load of their key has ended. The check for circles follows the
keys that threads wait for to the loads that are in their slots now. A thread may wait for an older
load of that key, one that has failed or was evicted: then the check takes it to be blocked on a
thread that it does not wait for, and a caller may be answered as if it closed a circle that is not
there. Every other answer is that of a load that has ended.
-/
namespace Cascade.SingleFlight

open Relation

section Graph

variable {α : Type} {r q : α → α → Prop}

/-- A path in two kinds of edges has only those of the first kind, or there is a first edge of the
second. -/
theorem transGen_or_iff {a b : α} :
    TransGen (fun x y => r x y ∨ q x y) a b ↔
      TransGen r a b ∨ ∃ x y, ReflTransGen r a x ∧ q x y ∧
        ReflTransGen (fun x y => r x y ∨ q x y) y b := by
  constructor
  · intro h
    induction h using TransGen.head_induction_on with
    | @single a hab =>
      rcases hab with hab | hab
      · exact .inl (.single hab)
      · exact .inr ⟨a, b, .refl, hab, .refl⟩
    | @head a c hac hcb ih =>
      rcases hac with hac | hac
      · rcases ih with hcb | ⟨x, y, hcx, hxy, hyb⟩
        · exact .inl (hcb.head hac)
        · exact .inr ⟨x, y, hcx.head hac, hxy, hyb⟩
      · exact .inr ⟨a, c, .refl, hac, hcb.to_reflTransGen⟩
  · rintro (h | ⟨x, y, hax, hxy, hyb⟩)
    · exact TransGen.mono (fun _ _ h => .inl h) _ _ h
    · have hax' : ReflTransGen (fun x y => r x y ∨ q x y) a x :=
        ReflTransGen.mono (fun _ _ h => Or.inl h) _ _ hax
      exact (TransGen.tail' hax' (.inr hxy)).trans_left hyb

end Graph

variable {θ κ ν ε : Type} [DecidableEq θ] [DecidableEq κ]

section Check

variable {c : SingleFlight θ κ ν ε} {a b : θ}

theorem mem_waiting_of_blocker? (h : c.blocker? a = some b) : a ∈ c.waiting.keys := by
  obtain ⟨key, hk, -⟩ := Option.bind_eq_some_iff.mp h
  exact Table.mem_keys_of_get? _ hk

theorem transGen_of_blockedOn {n : Nat} (h : c.blockedOn b n a = true) :
    TransGen (fun x y => c.blocker? x = some y) a b := by
  induction n generalizing a with
  | zero => simp [blockedOn] at h
  | succ n ih =>
    unfold blockedOn at h
    split at h
    · exact absurd h (by simp)
    next next hn =>
      rcases (Bool.or_eq_true _ _).mp h with h | h
      · exact .single (by rw [hn, of_decide_eq_true h])
      · exact (ih h).head hn

/-- The threads on a path that the check follows, each of them once. A thread met again adds
nothing, for what it is blocked on is the same. -/
theorem exists_path_of_blocker? (h : TransGen (fun x y => c.blocker? x = some y) a b) :
    ∃ path : List θ, path.Nodup ∧ a ∈ path ∧ (∀ x ∈ path, x ∈ c.waiting.keys) ∧
      ∀ x ∈ path, ∀ n, path.length ≤ n → c.blockedOn b n x = true := by
  induction h using TransGen.head_induction_on with
  | @single a hab =>
    refine ⟨[a], List.nodup_singleton a, by simp, by simpa using mem_waiting_of_blocker? hab, ?_⟩
    intro x hx n hn
    obtain rfl : x = a := by simpa using hx
    cases n with
    | zero => simp at hn
    | succ n => simp [blockedOn, hab]
  | @head a d had hdb ih =>
    obtain ⟨path, hnd, hd, hkeys, hblock⟩ := ih
    by_cases ha : a ∈ path
    · exact ⟨path, hnd, ha, hkeys, hblock⟩
    refine ⟨a :: path, List.nodup_cons.mpr ⟨ha, hnd⟩, by simp, ?_, ?_⟩
    · intro x hx
      rcases List.mem_cons.mp hx with rfl | hx
      · exact mem_waiting_of_blocker? had
      · exact hkeys x hx
    · intro x hx n hn
      cases n with
      | zero => simp at hn
      | succ n =>
        have hle : path.length ≤ n := by simpa using hn
        rcases List.mem_cons.mp hx with rfl | hx
        · simp [blockedOn, had, hblock d hd n hle]
        · exact hblock x hx (n + 1) (by omega)

/-- The bound of the check cuts no path short. -/
theorem wouldDeadlock_iff :
    c.wouldDeadlock a b = true ↔ TransGen (fun x y => c.blocker? x = some y) a b := by
  constructor
  · exact transGen_of_blockedOn
  · intro h
    obtain ⟨path, hnd, ha, hkeys, hblock⟩ := exists_path_of_blocker? h
    have hle := (List.subperm_of_subset hnd hkeys).length_le
    simp only [Table.keys, List.length_map] at hle
    exact hblock a ha _ (by omega)

end Check

namespace View

/-- The thread `a` waits for a load that is no longer in the slot of its key, where by now there is
one of `b`. -/
def Overtaken (v : View θ κ ν ε) (a b : θ) : Prop :=
  ∃ p f flight, v.stage a = .waiting p ∧ v.cache.slots.get? p.key = some (.loading f) ∧
    f ≠ p.flight ∧ v.cache.flights.get? f = some flight ∧ flight.owner = b

/-- The check is led from `a` to `b` by way of an overtaken thread. -/
def Misled (v : View θ κ ν ε) (a b : θ) : Prop :=
  ∃ x y, ReflTransGen v.Sees a x ∧ v.Overtaken x y ∧
    ReflTransGen (fun x y => v.Sees x y ∨ v.Overtaken x y) y b

/-- Whoever the cache has down as waiting does wait, and for that key. -/
def Listed (v : View θ κ ν ε) : Prop :=
  ∀ a key, v.cache.waiting.get? a = some key → ∃ p, v.stage a = .waiting p ∧ p.key = key

end View

section Views

variable {v w : View θ κ ν ε} {me : θ} {d : Option (Deed κ ν ε)} {deeds : List (Deed κ ν ε)}

omit [DecidableEq κ] in
/-- A step of a thread that does not wait, and is not listed, lists nobody. -/
theorem View.Listed.of_unlisted (h : v.Listed) (hw : w.cache.waiting = v.cache.waiting)
    (hme : ∀ p, v.stage me ≠ .waiting p) (hs : ∀ a, a ≠ me → w.stage a = v.stage a) :
    w.Listed := by
  intro a key hk
  obtain ⟨p, hp, hkey⟩ := h a key (by rw [← hw]; exact hk)
  have ha : a ≠ me := by
    rintro rfl
    exact hme p hp
  exact ⟨p, by rw [hs a ha]; exact hp, hkey⟩

theorem Effect.listed (h : v.Listed) (he : Effect v me d w) : w.Listed := by
  cases he with
  | nothing => exact h
  | publishes f x => simpa [View.Listed, publish] using h
  | evicts key => exact h
  | clears => exact h
  | begins ending hp hs => exact h
  | @waits p flight hp hs hf ho hd =>
    intro a key hk
    by_cases ha : a = me
    · subst ha
      have hkey : p.key = key := by simpa using hk
      exact ⟨p, by simp, hkey⟩
    · simp only [Table.get?_set_ne _ (Ne.symm ha)] at hk
      simpa only [Function.update_of_ne ha] using h a key hk
  | @ends l rest hp hl =>
    have hme : ∀ p, v.stage me ≠ .waiting p := by simp [hp]
    refine h.of_unlisted (by simp) hme ?_
    intro a ha
    simp [ha]
  | @tells l hl =>
    have hme : ∀ p, v.stage me ≠ .waiting p := by simp [hl]
    refine h.of_unlisted (by simp [finishEnding_eq]) hme ?_
    intro a ha
    simp [ha]
  | wakes hp hf hd =>
    intro a key hk
    simp only [awaken, Table.get?_erase] at hk
    split at hk
    · exact absurd hk (by simp)
    next ha => simpa only [Function.update_of_ne (Ne.symm ha)] using h a key hk

theorem Run.listed {s : System θ κ ν ε} (h : Run .start deeds s) : s.view.Listed := by
  refine h.preserves (P := fun _ v => View.Listed v) ?_ ?_ ?_
  · intro a key hk
    simp [System.view, System.start, SingleFlight.empty] at hk
  · intro deeds v me d w hv he
    exact he.listed hv
  · intro deeds v me ls hv hn
    exact hv

/-- What the check follows: a thread that it sees, or one that has been overtaken. -/
theorem View.Listed.blocker?_iff (hl : v.Listed) (hs : Sound v) {a b : θ} :
    v.cache.blocker? a = some b ↔ v.Sees a b ∨ v.Overtaken a b := by
  constructor
  · intro h
    obtain ⟨key, hk, h⟩ := Option.bind_eq_some_iff.mp h
    obtain ⟨f, hslot, h⟩ := Option.bind_eq_some_iff.mp h
    obtain ⟨flight, hf, ho⟩ := Option.bind_eq_some_iff.mp h
    obtain ⟨p, hp, rfl⟩ := hl a key hk
    rw [loadOf?_eq_some] at hslot
    have ho : flight.owner = b := by simpa using ho
    by_cases he : f = p.flight
    · subst he
      exact .inl ⟨p, flight, hp, hslot, hf, ho⟩
    · exact .inr ⟨p, f, flight, hp, hslot, he, hf, ho⟩
  · rintro (h | ⟨p, f, flight, hp, hslot, -, hf, rfl⟩)
    · exact h.blocker? hs
    · have hw := (hs.noted a p hp).1
      simp [SingleFlight.blocker?, hw, loadOf?_eq_some.mpr hslot, hf]

theorem View.Listed.wouldDeadlock_iff (hl : v.Listed) (hs : Sound v) {a b : θ} :
    v.cache.wouldDeadlock a b = true ↔ TransGen v.Sees a b ∨ v.Misled a b := by
  have he : (fun x y => v.cache.blocker? x = some y) = fun x y => v.Sees x y ∨ v.Overtaken x y := by
    funext x y
    exact propext (hl.blocker?_iff hs)
  rw [SingleFlight.wouldDeadlock_iff, he]
  exact transGen_or_iff

/-- A load in the slot of its key runs. -/
theorem Sound.exists_running (h : Sound v) {key : κ} {f : Nat}
    (hs : v.cache.slots.get? key = some (.loading f)) :
    ∃ flight, v.cache.flights.get? f = some flight ∧ flight.state = .running := by
  obtain ⟨a, l, hl, hn⟩ := h.attached key f hs
  obtain ⟨flight, hf, -, hr⟩ := h.owned a l (View.mem_hand_of_loads hl)
  obtain ⟨-, rfl⟩ := Prod.mk.inj hn
  exact ⟨flight, hf, hr⟩

/-- A thread that the check sees is blocked. -/
theorem View.Sees.waitsFor (h : Sound v) {a b : θ} (hab : v.Sees a b) : v.WaitsFor a b := by
  obtain ⟨p, flight, hp, hslot, hf, rfl⟩ := hab
  obtain ⟨running, hr, hst⟩ := h.exists_running hslot
  obtain rfl : flight = running := by simpa [hf] using hr
  exact ⟨p, flight, hp, hf, hst, rfl⟩

end Views

section History

variable {v w : View θ κ ν ε} {me : θ} {d : Option (Deed κ ν ε)} {deeds : List (Deed κ ν ε)}

/-- The value of a load stays in its slot as long as nothing empties it. -/
def Lasting (deeds : List (Deed κ ν ε)) (v : View θ κ ν ε) : Prop :=
  ∀ key f x, Undisturbed deeds key f → .ends ⟨key, f, .value x⟩ ∈ deeds →
    v.cache.slots.get? key = some (.ready x)

theorem Lasting.effect (h : Lasting deeds v) (hv : Accounted deeds v) (he : Effect v me d w) :
    Lasting (deeds ++ d.toList) w := by
  cases he with
  | nothing => simpa using h
  | publishes f x => simpa [Lasting, publish] using h
  | waits hp hs hf ho hd => simpa [Lasting] using h
  | tells hl => simpa [Lasting, finishEnding_eq] using h
  | wakes hp hf hd => simpa [Lasting, awaken] using h
  | evicts key =>
    intro k f x hu hx
    simp only [Option.toList_some, undisturbed_snoc, reduceCtorEq, false_or, Deed.Empties] at hu
    simp only [invalidate, Table.get?_erase, hu.2, ↓reduceIte]
    exact h k f x hu.1 (by simpa using hx)
  | clears =>
    intro k f x hu hx
    simp [Deed.Empties] at hu
  | @begins key ending hp hs =>
    intro k f x hu hx
    replace hx : .ends ⟨k, f, .value x⟩ ∈ deeds := by simpa using hx
    have hlt := hv.logged.begun_lt _ _ (hv.logged.ended _ hx)
    rcases undisturbed_snoc.mp hu with he | ⟨hu, -⟩
    · obtain ⟨-, rfl⟩ : key = k ∧ v.cache.flights.length = f := by simpa using he
      exact absurd hlt (Nat.lt_irrefl _)
    · have hk := h k f x hu hx
      have hne : key ≠ k := by
        rintro rfl
        simp [hs] at hk
      simpa only [Table.get?_set_ne _ hne] using hk
  | @ends l rest hp hl =>
    intro k f x hu hx
    replace hu : Undisturbed deeds k f := by simpa [Deed.Empties] using hu
    rw [slots_storeEnding]
    rcases List.mem_append.mp hx with hx | hx
    · have hk := h k f x hu hx
      have hload : v.cache.loadOf? k ≠ some l.flight := by simp [loadOf?_eq_some, hk]
      simp [hload, hk]
    · obtain rfl : ⟨k, f, .value x⟩ = l := by simpa using hx
      have hk := (hv.rooted.live me _ (by rw [hl]; exact List.mem_cons_self)).mpr hu
      simp [loadOf?_eq_some.mpr hk, Ending.slot?]

/-- The load that an overtaken thread waits for was evicted or has failed. -/
theorem Accounted.overtaken (hv : Accounted deeds v) (hl : Lasting deeds v) {a b : θ}
    (h : v.Overtaken a b) : ∃ p, v.stage a = .waiting p ∧
      (¬ Undisturbed deeds p.key p.flight ∨ ∃ l, .ends l ∈ deeds ∧ l.name = (p.key, p.flight) ∧
        ∀ x, l.ending ≠ .value x) := by
  obtain ⟨p, f, other, hp, hslot, hne, -, -⟩ := h
  refine ⟨p, hp, ?_⟩
  by_cases hu : Undisturbed deeds p.key p.flight
  swap
  · exact .inl hu
  have hbegun := hv.logged.awaited a p hp
  have hends : ∃ l, .ends l ∈ deeds ∧ l.flight = p.flight := by
    obtain ⟨flight, hf⟩ := Option.isSome_iff_exists.mp
      ((hv.sound.dense p.flight).mpr (hv.sound.noted a p hp).2)
    by_cases hr : flight.state = .running
    · obtain ⟨l, hlh, hlf⟩ := hv.sound.manned p.flight flight hf hr
      rcases List.mem_append.mp hlh with ht | hlo
      · refine ⟨l, hv.logged.told flight.owner l ?_, hlf⟩
        cases hst : v.stage flight.owner <;> simp_all [Stage.untold]
      · -- a load that is still made would be in the slot
        have hk := hv.logged.begun_inj _ _ _ (hlf ▸ (hv.logged.live _ l hlo).1) hbegun
        have hin := (hv.rooted.live _ l hlo).mpr (by rw [hk, hlf]; exact hu)
        rw [hk, hslot, hlf] at hin
        exact absurd (by simpa using hin) hne
    · obtain ⟨l, he, hlf, -⟩ := hv.logged.finished p.flight flight hf hr
      exact ⟨l, he, hlf⟩
  obtain ⟨l, he, hlf⟩ := hends
  have hk := hv.logged.begun_inj _ _ _ (hlf ▸ hv.logged.ended l he) hbegun
  refine .inr ⟨l, he, by rw [Load.name, hk, hlf], ?_⟩
  intro x hx
  obtain ⟨key, g, ending⟩ := l
  obtain rfl : key = p.key := hk
  obtain rfl : g = p.flight := hlf
  obtain rfl : ending = .value x := hx
  have hready := hl _ _ x hu he
  rw [hslot] at hready
  exact absurd hready (by simp)

theorem Run.lasting {s : System θ κ ν ε} (h : Run .start deeds s) : Lasting deeds s.view := by
  have hP : Accounted deeds s.view ∧ Lasting deeds s.view := by
    refine h.preserves (P := fun deeds v => Accounted deeds v ∧ Lasting deeds v)
      ⟨Run.refl.accounted, ?_⟩ ?_ ?_
    · intro key f x hu hx
      simp at hx
    · intro deeds v me d w hv he
      exact ⟨hv.1.effect he, hv.2.effect hv.1 he⟩
    · intro deeds v me ls hv hn
      exact ⟨hv.1.replans hn, hv.2⟩
  exact hP.2

end History

/-- The flight of the load that is made of a key. -/
def inFlight? (c : SingleFlight θ κ ν ε) (key : κ) : Option (Flight θ ν ε) :=
  (c.loadOf? key).bind c.flights.get?

/-- A call of the thread `me` for the key is answered before the load has ended. -/
def Deflects (c : SingleFlight θ κ ν ε) (me : θ) (key : κ) : Prop :=
  ∃ placeholder, (c.claim me key).1 = .reentrant placeholder

omit [DecidableEq θ] in
theorem inFlight?_eq_some {c : SingleFlight θ κ ν ε} {key : κ} {flight : Flight θ ν ε} :
    c.inFlight? key = some flight ↔
      ∃ f, c.slots.get? key = some (.loading f) ∧ c.flights.get? f = some flight := by
  simp [inFlight?, Option.bind_eq_some_iff, loadOf?_eq_some]

theorem Sound.deflects_iff {v : View θ κ ν ε} (h : Sound v) (me : θ) (key : κ) :
    v.cache.Deflects me key ↔ ∃ flight, v.cache.inFlight? key = some flight ∧
      (flight.owner = me ∨ v.cache.wouldDeadlock flight.owner me = true) := by
  simp only [inFlight?_eq_some, Deflects]
  cases hs : v.cache.slots.get? key with
  | none => simp [claim_load hs]
  | some slot =>
    cases slot with
    | ready x => simp [claim_ready hs]
    | loading f =>
      obtain ⟨flight, hf, -⟩ := h.exists_running hs
      by_cases ho : flight.owner = me ∨ v.cache.wouldDeadlock flight.owner me = true
      · simp [claim_reentrant hs hf ho, hf, ho]
      · have hw := not_or.mp ho
        simp [claim_wait hs hf hw.1 (by simpa using hw.2), hf, ho]

/-- What a caller is answered whose key is still loaded. -/
def Answer.ofPlaceholder : Option ν → Answer ν ε
  | some v => value v
  | none => cycle

namespace System

/-- The next command of the thread is a call for the key. -/
def Asks (s : System θ κ ν ε) (me : θ) (key : κ) : Prop :=
  ∃ load body ending commands fs events, s.threads.get? me =
    some ⟨⟨load, .get key body ending :: commands⟩ :: fs, .ready, events⟩

/-- The load of the key is the caller's own, or its owner is blocked on the caller, directly or
through other threads. -/
def Justified (s : System θ κ ν ε) (me : θ) (key : κ) : Prop :=
  ∃ flight, s.cache.inFlight? key = some flight ∧
    (flight.owner = me ∨ TransGen s.view.WaitsFor flight.owner me)

variable {s : System θ κ ν ε} {me : θ} {key : κ}

omit [DecidableEq κ] in
theorem events_put (s : System θ κ ν ε) (me : θ) (t : Thread θ κ ν ε) (c : SingleFlight θ κ ν ε) :
    (s.put me t c).events me = t.events := by
  simp [events, put]

omit [DecidableEq κ] in
theorem events_of_get? {t : Thread θ κ ν ε} (h : s.threads.get? me = some t) :
    s.events me = t.events := by
  simp [events, h]

/-- A command other than a call logs no answer. -/
theorem events_execute {t : Thread θ κ ν ε} (ht : s.threads.get? me = some t)
    {command : Command θ κ ν ε} (hc : ∀ key body ending, command ≠ .get key body ending) :
    (s.execute me t command).events me = s.events me ∨
      ∃ e, (s.execute me t command).events me = s.events me ++ [e] ∧ e.answer? = none := by
  have hlog (e : Event θ κ ν ε) (c : SingleFlight θ κ ν ε) :
      (s.put me (t.advance.log e) c).events me = s.events me ++ [e] := by
    rw [events_put, events_of_get? ht, Thread.log, t.events_advance]
  have hquiet (c : SingleFlight θ κ ν ε) : (s.put me t.advance c).events me = s.events me := by
    rw [events_put, events_of_get? ht, t.events_advance]
  cases command with
  | get key body ending => exact absurd rfl (hc key body ending)
  | publish v => exact .inr ⟨_, hlog _ _, rfl⟩
  | peek key => exact .inr ⟨_, hlog _ _, rfl⟩
  | invalidate key => exact .inr ⟨_, hlog _ _, rfl⟩
  | clear => exact .inr ⟨_, hlog _ _, rfl⟩
  | keys => exact .inr ⟨_, hlog _ _, rfl⟩
  | await keys =>
    simp only [execute]
    split
    · exact .inl (hquiet _)
    · exact .inl rfl
  | fork a commands =>
    simp only [execute]
    split
    · exact .inl (hquiet _)
    next h =>
      have hne : a ≠ me := by
        rintro rfl
        simp [Table.contains, ht] at h
      refine .inl (.trans ?_ (hquiet s.cache))
      simp [events, put, Table.get?_set_ne _ hne]
  | join a =>
    simp only [execute]
    split
    · exact .inr ⟨_, hlog _ _, rfl⟩
    · exact .inl rfl

/-- A call that is answered early gets what its load has published, or else an error. -/
theorem Asks.events_of_deflects (h : s.Asks me key) (hs : Sound s.view)
    (hd : s.cache.Deflects me key) {flight : Flight θ ν ε}
    (hf : s.cache.inFlight? key = some flight) :
    (s.step me).events me = s.events me ++ [.answer key (.ofPlaceholder flight.placeholder)] := by
  obtain ⟨load, body, ending, commands, fs, events, ht⟩ := h
  obtain ⟨other, hf', ho⟩ := (hs.deflects_iff me key).mp hd
  obtain rfl : flight = other := Option.some.inj (hf.symm.trans hf')
  obtain ⟨f, hslot, hget⟩ := inFlight?_eq_some.mp hf
  rw [events_of_get? ht]
  simp only [step, ht, execute, request, claim_reentrant hslot hget ho, Thread.advance]
  cases flight.placeholder <;>
    simp [events_put, Thread.answered, Thread.log, Answer.ofPlaceholder]

end System

section Calls

variable {s : System θ κ ν ε} {me : θ} {key : κ} {deeds : List (Deed κ ν ε)}

/-- Any other call gets the value of a load that has ended, waits for one that is made or loads the
key itself. -/
theorem Run.asked (h : Run .start deeds s) (ha : s.Asks me key) (hd : ¬ s.cache.Deflects me key) :
    (∃ l, .ends l ∈ deeds ∧ l.key = key ∧
      (s.step me).events me = s.events me ++ [.answer key (.ofEnding l.ending)]) ∨
    (∃ p owner, (s.step me).stage me = .waiting p ∧ p.key = key ∧
      (s.step me).view.WaitsFor me owner ∧ (s.step me).events me = s.events me) ∨
    s.deed? me = some (.begins key s.cache.flights.length) ∧
      (s.step me).events me = s.events me ++ [.load key] := by
  have hs := h.accounted.sound
  obtain ⟨load, body, ending, commands, fs, events, ht⟩ := ha
  cases hslot : s.cache.slots.get? key with
  | none =>
    refine .inr (.inr ⟨by simp [System.deed?, ht, Command.deed?, hslot], ?_⟩)
    rw [System.events_of_get? ht]
    simp [System.step, ht, System.execute, System.request, Thread.advance, claim_load hslot,
      System.events_put, Thread.log]
  | some slot =>
    cases slot with
    | ready x =>
      obtain ⟨f, -, he⟩ := h.accounted.rooted.ready key x hslot
      refine .inl ⟨_, he, rfl, ?_⟩
      rw [System.step_get_of_ready ht hslot, System.events_put, System.events_of_get? ht]
      rfl
    | loading f =>
      obtain ⟨flight, hf, hr⟩ := hs.exists_running hslot
      have hno : ¬ (flight.owner = me ∨ s.cache.wouldDeadlock flight.owner me = true) := fun ho =>
        hd ((hs.deflects_iff me key).mpr ⟨flight, inFlight?_eq_some.mpr ⟨f, hslot, hf⟩, ho⟩)
      obtain ⟨hown, hdead⟩ := not_or.mp hno
      have hstep : s.step me = s.put me ⟨⟨load, commands⟩ :: fs, .waiting ⟨key, body, ending, f⟩,
          events⟩ { s.cache with waiting := s.cache.waiting.set me key } := by
        simp [System.step, ht, System.execute, System.request, Thread.advance,
          claim_wait hslot hf hown (by simpa using hdead)]
      have hstage : (s.step me).stage me = .waiting ⟨key, body, ending, f⟩ := by
        simp [hstep, System.stage, System.put]
      have hcache : (s.step me).cache.flights.get? f = some flight := by
        rw [hstep]
        exact hf
      have hevents : (s.step me).events me = s.events me := by
        rw [hstep, System.events_put, System.events_of_get? ht]
      exact .inr (.inl ⟨_, flight.owner, hstage, rfl, ⟨_, flight, hstage, hcache, hr, rfl⟩,
        hevents⟩)

/-- An answer that a thread gets is the result of a load that has ended, or one that a call got
early. -/
theorem Run.answered (h : Run .start deeds s) {a : Answer ν ε}
    (ha : (s.step me).events me = s.events me ++ [.answer key a]) :
    s.Asks me key ∧ s.cache.Deflects me key ∨
      ∃ l, .ends l ∈ deeds ∧ l.key = key ∧ a = .ofEnding l.ending := by
  have hacc := h.accounted
  have hquiet : (s.step me).events me ≠ s.events me := by simp [ha]
  have hlast {e : Event θ κ ν ε} (he : (s.step me).events me = s.events me ++ [e]) :
      e = .answer key a := by
    rw [ha] at he
    simpa using he.symm
  have hanswer {k : κ} {b : Answer ν ε}
      (he : (s.step me).events me = s.events me ++ [.answer k b]) : k = key ∧ a = b := by
    obtain ⟨hk, hb⟩ := Event.answer.inj (hlast he)
    exact ⟨hk, hb.symm⟩
  cases ht : s.threads.get? me with
  | none => exact absurd (by simp [System.step, ht]) hquiet
  | some t =>
    cases hst : t.stage with
    | waiting p =>
      have hw : s.stage me = .waiting p := (System.stage_of_get? ht).trans hst
      obtain ⟨flight, hf⟩ := hacc.flight_of_waiting hw
      have hstep := System.step_of_waiting ht hst
      cases hfs : flight.state with
      | running => exact absurd (by simp [hstep, System.resume, hf, hfs]) hquiet
      | abandoned =>
        refine absurd ?_ hquiet
        simp [hstep, System.resume, hf, hfs, System.events_put, System.events_of_get? ht,
          Thread.askAgain]
      | done r =>
        obtain ⟨l, hl, hn, he⟩ := hacc.ended_of_waiting hw hf (by simp [hfs])
        obtain ⟨hk, hr⟩ := hanswer (k := p.key) (b := .ofResult r) (by
          simp [hstep, System.resume, hf, hfs, System.events_put, System.events_of_get? ht,
            Thread.answered, Thread.log])
        refine .inr ⟨l, hl, (Prod.mk.inj hn).1.trans hk, ?_⟩
        rw [hr, Ending.state_eq_done (he.symm.trans hfs)]
    | telling l =>
      obtain ⟨hk, hr⟩ := hanswer (k := l.key) (b := .ofEnding l.ending) (by
        simp [System.step, ht, hst, System.tell, System.events_put, System.events_of_get? ht,
          Thread.answered, Thread.log])
      exact .inr ⟨l, hacc.logged.told me l ((System.stage_of_get? ht).trans hst), hk, hr⟩
    | ready =>
      obtain ⟨frames, stage, events⟩ := t
      obtain rfl : stage = .ready := hst
      rcases frames with _ | ⟨⟨load, _ | ⟨command, rest⟩⟩, fs⟩
      · exact absurd (by simp [System.step, ht]) hquiet
      · refine absurd ?_ hquiet
        simp only [System.step, ht, System.endLoad]
        split <;> rw [System.events_put, System.events_of_get? ht]
      · have hstep : s.step me = s.execute me ⟨⟨load, command :: rest⟩ :: fs, .ready, events⟩
            command := by simp [System.step, ht]
        by_cases hc : ∃ k body ending, command = .get k body ending
        · obtain ⟨k, body, ending, rfl⟩ := hc
          have hasks : s.Asks me k := ⟨load, body, ending, rest, fs, events, ht⟩
          by_cases hd : s.cache.Deflects me k
          · obtain ⟨flight, hf, -⟩ := (hacc.sound.deflects_iff me k).mp hd
            have hk := (hanswer (hasks.events_of_deflects hacc.sound hd hf)).1
            exact .inl ⟨hk ▸ hasks, hk ▸ hd⟩
          · rcases h.asked hasks hd with ⟨l, hl, rfl, he⟩ | ⟨-, -, -, -, -, he⟩ | ⟨-, he⟩
            · obtain ⟨hk, hr⟩ := hanswer he
              exact .inr ⟨l, hl, hk, hr⟩
            · exact absurd he hquiet
            · exact absurd (hlast he) (by simp)
        · rcases System.events_execute ht (by simpa using hc) with he | ⟨e, he, hn⟩
          · exact absurd (by rw [hstep, he]) hquiet
          · obtain rfl := hlast (by rw [hstep, he])
            simp [Event.answer?] at hn

/-- What calls are answered with, in a state and after the deeds that led to it. -/
structure Candid (deeds : List (Deed κ ν ε)) (s : System θ κ ν ε) : Prop where
  /-- A call is answered early if its load is the caller's own, if the owner is seen to wait for
  the caller, or if the check is misled. -/
  deflects_iff : ∀ me key, s.cache.Deflects me key ↔ ∃ flight,
    s.cache.inFlight? key = some flight ∧
      (flight.owner = me ∨ TransGen s.view.Sees flight.owner me ∨ s.view.Misled flight.owner me)
  /-- An early answer is justified unless the check is misled. -/
  justified_iff : ∀ me key, (s.cache.Deflects me key → s.Justified me key) ↔ ∀ flight,
    s.cache.inFlight? key = some flight → s.view.Misled flight.owner me →
      flight.owner = me ∨ TransGen s.view.WaitsFor flight.owner me
  /-- It takes a thread that waits for a load which has failed or was evicted to mislead it. -/
  overtaken : ∀ a b, s.view.Overtaken a b → ∃ p, s.stage a = .waiting p ∧
    (¬ Undisturbed deeds p.key p.flight ∨ ∃ l, .ends l ∈ deeds ∧ l.name = (p.key, p.flight) ∧
      ∀ x, l.ending ≠ .value x)
  /-- An early answer is what the load has published, or else an error. -/
  early : ∀ me key flight, s.Asks me key → s.cache.Deflects me key →
    s.cache.inFlight? key = some flight →
      (s.step me).events me = s.events me ++ [.answer key (.ofPlaceholder flight.placeholder)]
  /-- Any other call gets the value of a load that has ended, waits for a thread that loads the key
  or loads it itself. -/
  asked : ∀ me key, s.Asks me key → ¬ s.cache.Deflects me key →
    (∃ l, .ends l ∈ deeds ∧ l.key = key ∧
      (s.step me).events me = s.events me ++ [.answer key (.ofEnding l.ending)]) ∨
    (∃ p owner, (s.step me).stage me = .waiting p ∧ p.key = key ∧
      (s.step me).view.WaitsFor me owner ∧ (s.step me).events me = s.events me) ∨
    s.deed? me = some (.begins key s.cache.flights.length) ∧
      (s.step me).events me = s.events me ++ [.load key]
  /-- Every answer that is not early is the result of a load that has ended. -/
  answered : ∀ me key a, (s.step me).events me = s.events me ++ [.answer key a] →
    s.Asks me key ∧ s.cache.Deflects me key ∨
      ∃ l, .ends l ∈ deeds ∧ l.key = key ∧ a = .ofEnding l.ending

theorem Run.deflects_iff (h : Run .start deeds s) (me : θ) (key : κ) :
    s.cache.Deflects me key ↔ ∃ flight, s.cache.inFlight? key = some flight ∧
      (flight.owner = me ∨ TransGen s.view.Sees flight.owner me ∨
        s.view.Misled flight.owner me) := by
  have hs := h.accounted.sound
  have hw (a b : θ) : s.cache.wouldDeadlock a b = true ↔
      TransGen s.view.Sees a b ∨ s.view.Misled a b := h.listed.wouldDeadlock_iff hs
  simp only [← hw]
  exact hs.deflects_iff me key

theorem Run.justified_iff (h : Run .start deeds s) (me : θ) (key : κ) :
    (s.cache.Deflects me key → s.Justified me key) ↔ ∀ flight,
      s.cache.inFlight? key = some flight → s.view.Misled flight.owner me →
        flight.owner = me ∨ TransGen s.view.WaitsFor flight.owner me := by
  have hs := h.accounted.sound
  constructor
  · intro hj flight hf hm
    obtain ⟨other, hf', ho⟩ := hj ((h.deflects_iff me key).mpr ⟨flight, hf, .inr (.inr hm)⟩)
    obtain rfl : flight = other := Option.some.inj (hf.symm.trans hf')
    exact ho
  · intro hm hd
    obtain ⟨flight, hf, ho | hsees | hmis⟩ := (h.deflects_iff me key).mp hd
    · exact ⟨flight, hf, .inl ho⟩
    · exact ⟨flight, hf, .inr (TransGen.mono (fun _ _ => View.Sees.waitsFor hs) _ _ hsees)⟩
    · exact ⟨flight, hf, hm flight hf hmis⟩

/-- In whatever order threads take their steps, nobody gets an unfinished value but a caller that
loads the key itself, that the owner of the load waits for, or that is taken for one by way of a
thread whose load has failed or was evicted. -/
theorem Run.candid (h : Run .start deeds s) : Candid deeds s where
  deflects_iff := h.deflects_iff
  justified_iff := h.justified_iff
  overtaken _ _ hab := h.accounted.overtaken h.lasting hab
  early _ _ _ ha hd hf := ha.events_of_deflects h.accounted.sound hd hf
  asked _ _ ha hd := h.asked ha hd
  answered _ _ _ ha := h.answered ha

/-- Where no load fails and nothing is evicted, every early answer is justified. -/
theorem Run.justified (h : Run .start deeds s) (hd : ∀ d ∈ deeds, ∀ key, ¬ d.Empties key)
    (hv : ∀ l, .ends l ∈ deeds → ∃ x, l.ending = .value x) (he : s.cache.Deflects me key) :
    s.Justified me key := by
  refine (h.justified_iff me key).mpr ?_ he
  rintro flight - ⟨x, y, -, hxy, -⟩
  obtain ⟨p, hp, hu | ⟨l, hl, -, hn⟩⟩ := h.accounted.overtaken h.lasting hxy
  · obtain ⟨d₁, d₂, hm⟩ := List.append_of_mem (h.accounted.logged.awaited x p hp)
    refine absurd ⟨d₁, d₂, hm, ?_⟩ hu
    intro d hmem
    exact hd d (by simp [hm, hmem]) p.key
  · obtain ⟨v, hlv⟩ := hv l hl
    exact absurd hlv (hn v)

end Calls

/-- The loader of thread 0 asks for the key that thread 1 fails to load. Thread 2 loads that key
after it, and its loader asks for the key of thread 0. -/
def overtaking : System Nat Nat Nat Nat :=
  ((System.start.put 0 (.start [.get 0 [.get 1 [] (.value 1)] (.value 0)]) .empty).put 1
    (.start [.get 1 [] (.error 9)]) .empty).put 2
    (.start [.get 1 [.get 0 [] (.value 0)] (.value 1)]) .empty

theorem overtaking_run : Run .start [] overtaking :=
  ((Run.refl.fork (a := 0) _ rfl).fork (a := 1) _ rfl).fork (a := 2) _ rfl

/-- Thread 0 has not woken up yet when thread 2 asks, which is told that it closes a circle. -/
theorem overtaking_candid : ∃ deeds,
    Candid deeds ([0, 1, 0, 1, 1, 2].foldl System.step overtaking) ∧
    ([0, 1, 0, 1, 1, 2, 2].foldl System.step overtaking).events 2 =
      [.load 1, .answer 0 .cycle] := by
  obtain ⟨deeds, hrun⟩ := overtaking_run.turns [0, 1, 0, 1, 1, 2]
  exact ⟨deeds, Run.candid hrun, rfl⟩

/-- So not every early answer is justified. -/
theorem not_justified :
    ¬ ∀ (deeds : List (Deed Nat Nat Nat)) (s : System Nat Nat Nat Nat) (me key : Nat),
      Run .start deeds s → s.Asks me key → s.cache.Deflects me key → s.Justified me key := by
  intro h
  obtain ⟨deeds, hrun⟩ := overtaking_run.turns [0, 1, 0, 1, 1, 2]
  obtain ⟨flight, hf, ho⟩ := h deeds _ 2 0 hrun ⟨_, _, _, _, _, _, rfl⟩ ⟨_, rfl⟩
  obtain rfl : (⟨0, none, .running⟩ : Flight Nat Nat Nat) = flight := by
    exact Option.some.inj hf
  rcases ho with ho | hw
  · exact absurd ho (by decide)
  · -- the flight that thread 0 waits for is over
    obtain ⟨b, ⟨p, flight, hp, hf, hr, -⟩, -⟩ := TransGen.head'_iff.mp hw
    obtain rfl : (⟨1, [], .value 1, 1⟩ : Pending Nat Nat Nat Nat) = p := by
      exact Stage.waiting.inj hp
    obtain rfl : (⟨1, none, .done (.error 9)⟩ : Flight Nat Nat Nat) = flight := by
      exact Option.some.inj hf
    exact absurd hr (by simp)

end Cascade.SingleFlight
