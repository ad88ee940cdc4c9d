import Cascade.Proofs.SingleFlight.Invariant
/-!
What the deeds of a run say about the state it has reached: which load the content of a slot comes
from, and how the flight that a thread waited for has ended.
-/
namespace Cascade.SingleFlight

variable {θ κ ν ε : Type}

/-- The load of the key in this flight began, and since then nothing has emptied the slot of the
key. -/
def Undisturbed (deeds : List (Deed κ ν ε)) (key : κ) (f : Nat) : Prop :=
  ∃ d₁ d₂, deeds = d₁ ++ .begins key f :: d₂ ∧ ∀ d ∈ d₂, ¬ d.Empties key

@[simp] theorem undisturbed_snoc {deeds : List (Deed κ ν ε)} {d : Deed κ ν ε} {key : κ} {f : Nat} :
    Undisturbed (deeds ++ [d]) key f ↔
      d = .begins key f ∨ Undisturbed deeds key f ∧ ¬ d.Empties key := by
  constructor
  · rintro ⟨d₁, d₂, he, hd⟩
    rcases List.eq_nil_or_concat d₂ with rfl | ⟨d₃, e, rfl⟩
    · exact .inl (List.cons.inj (List.append_inj' he rfl).2).1
    · have hcut : deeds ++ [d] = (d₁ ++ .begins key f :: d₃) ++ [e] := by simpa using he
      obtain ⟨rfl, hde⟩ := List.append_inj' hcut rfl
      obtain rfl : d = e := (List.cons.inj hde).1
      exact .inr ⟨⟨d₁, d₃, rfl, fun x hx => hd x (by simp [hx])⟩, hd d (by simp)⟩
  · rintro (rfl | ⟨⟨d₁, d₂, rfl, hd⟩, hne⟩)
    · exact ⟨deeds, [], rfl, by simp⟩
    · refine ⟨d₁, d₂ ++ [d], by simp, ?_⟩
      intro x hx
      rcases List.mem_append.mp hx with hx | hx
      · exact hd x hx
      · rwa [List.mem_singleton.mp hx]

/-- Every slot is accounted for by the deeds. -/
structure Rooted [DecidableEq κ] (deeds : List (Deed κ ν ε)) (v : View θ κ ν ε) : Prop where
  live : ∀ a, ∀ l ∈ v.loads a,
    v.cache.slots.get? l.key = some (.loading l.flight) ↔ Undisturbed deeds l.key l.flight
  ready : ∀ key x, v.cache.slots.get? key = some (.ready x) →
    ∃ f, Undisturbed deeds key f ∧ .ends ⟨key, f, .value x⟩ ∈ deeds

/-- Every flight is accounted for by the deeds. -/
structure Logged [DecidableEq θ] (deeds : List (Deed κ ν ε)) (v : View θ κ ν ε) : Prop where
  begun_lt : ∀ key f, .begins key f ∈ deeds → f < v.cache.flights.length
  begun_inj : ∀ k key f, .begins k f ∈ deeds → .begins key f ∈ deeds → k = key
  ended : ∀ l, .ends l ∈ deeds → .begins l.key l.flight ∈ deeds
  ended_inj : ∀ l m, .ends l ∈ deeds → .ends m ∈ deeds → l.flight = m.flight → l = m
  live : ∀ a, ∀ l ∈ v.loads a, .begins l.key l.flight ∈ deeds ∧
    ∀ m, .ends m ∈ deeds → m.flight ≠ l.flight
  awaited : ∀ a p, v.stage a = .waiting p → .begins p.key p.flight ∈ deeds
  told : ∀ a l, v.stage a = .telling l → .ends l ∈ deeds
  finished : ∀ f flight, v.cache.flights.get? f = some flight → flight.state ≠ .running →
    ∃ l, .ends l ∈ deeds ∧ l.flight = f ∧ flight.state = l.ending.state

section

variable [DecidableEq θ] [DecidableEq κ] {v w : View θ κ ν ε} {me : θ} {d : Option (Deed κ ν ε)}
variable {deeds : List (Deed κ ν ε)}

namespace Rooted

theorem start : Rooted [] (System.start : System θ κ ν ε).view where
  live a l hl := by simp [System.view, System.start, System.loads] at hl
  ready key x h := by simp [System.view, System.start, SingleFlight.empty] at h

omit [DecidableEq θ] in
theorem evicts (h : Rooted deeds v) (key : κ) :
    Rooted (deeds ++ [.evicts key]) { v with cache := v.cache.invalidate key } := by
  refine ⟨?_, ?_⟩
  · intro a l hl
    simp only [invalidate, Table.get?_erase, undisturbed_snoc, Deed.Empties, reduceCtorEq, false_or]
    by_cases hk : key = l.key
    · simp [hk]
    · simpa [hk] using h.live a l hl
  · intro k x hx
    simp only [invalidate, Table.get?_erase] at hx
    by_cases hk : key = k
    · simp [hk] at hx
    · obtain ⟨f, hf, he⟩ := h.ready k x (by simpa [hk] using hx)
      exact ⟨f, by simp [hf, Deed.Empties, hk], by simp [he]⟩

omit [DecidableEq θ] in
theorem clears (deeds : List (Deed κ ν ε)) (v : View θ κ ν ε) :
    Rooted (deeds ++ [.clears]) { v with cache := v.cache.clear } := by
  refine ⟨?_, ?_⟩
  · intro a l hl
    simp [clear, Deed.Empties]
  · intro k x hx
    simp [clear] at hx

theorem begins (h : Rooted deeds v) (hs : Sound v) {key : κ} (ending : Ending ν ε)
    (hn : v.cache.slots.get? key = none) :
    Rooted (deeds ++ [.begins key v.cache.flights.length])
      ⟨{ v.cache with
          slots := v.cache.slots.set key (.loading v.cache.flights.length)
          flights := v.cache.flights.set v.cache.flights.length ⟨me, none, .running⟩ },
        Function.update v.loads me (⟨key, v.cache.flights.length, ending⟩ :: v.loads me),
        v.stage⟩ := by
  have hold {a : θ} {l : Load κ ν ε} (hl : l ∈ v.loads a) :
      (v.cache.slots.set key (.loading v.cache.flights.length)).get? l.key =
          some (.loading l.flight) ↔
        Undisturbed (deeds ++ [.begins key v.cache.flights.length]) l.key l.flight := by
    have hlt := hs.flight_lt (View.mem_hand_of_loads hl)
    have hlive := h.live a l hl
    have hne : v.cache.flights.length ≠ l.flight := by omega
    by_cases hk : key = l.key
    · subst hk
      rw [hn] at hlive
      simp [hne, ← hlive]
    · simp [Table.get?_set_ne _ hk, hk, hlive, Deed.Empties]
  refine ⟨?_, ?_⟩
  · intro a l hl
    by_cases ha : a = me
    · subst ha
      rcases List.mem_cons.mp (by simpa using hl) with rfl | hl
      · simp
      · exact hold hl
    · exact hold (by simpa [ha] using hl)
  · intro k x hx
    by_cases hk : key = k
    · simp [hk] at hx
    · obtain ⟨f, hf, he⟩ := h.ready k x (by simpa [Table.get?_set_ne _ hk] using hx)
      exact ⟨f, by simp [hf, Deed.Empties], by simp [he]⟩

theorem ends (h : Rooted deeds v) (hs : Sound v) {l : Load κ ν ε} {rest : List (Load κ ν ε)}
    (hl : v.loads me = l :: rest) :
    Rooted (deeds ++ [.ends l]) ⟨System.storeEnding v.cache l, Function.update v.loads me rest,
      Function.update v.stage me (.telling l)⟩ := by
  have hlm : l ∈ v.loads me := by simp [hl]
  refine ⟨?_, ?_⟩
  · intro a m hm
    have hma := hs.mem_of_rest hl hm
    have hlive := h.live a m hma.1
    simp only [slots_storeEnding, undisturbed_snoc, reduceCtorEq, false_or, Deed.Empties,
      not_false_eq_true, and_true, ← hlive]
    split
    next hc =>
      have hslot := loadOf?_eq_some.mp hc.2
      simp only [l.ending.slot?_ne_loading, hslot, Option.some.injEq, Slot.loading.injEq, false_iff]
      exact Ne.symm hma.2
    · rfl
  · intro k x hx
    simp only [slots_storeEnding] at hx
    split at hx
    next hc =>
      obtain ⟨rfl, hslot⟩ := hc
      have hval : l.ending = .value x := by
        cases he : l.ending <;> simp_all [Ending.slot?]
      refine ⟨l.flight, ?_, ?_⟩
      · simpa [Deed.Empties] using (h.live me l hlm).mp (loadOf?_eq_some.mp hslot)
      · rw [← hval]; simp
    next hc =>
      obtain ⟨f, hf, he⟩ := h.ready k x hx
      exact ⟨f, by simp [hf, Deed.Empties], by simp [he]⟩

theorem replans (h : Rooted deeds v) {ls : List (Load κ ν ε)}
    (hn : ls.map Load.name = (v.loads me).map Load.name) :
    Rooted deeds { v with loads := Function.update v.loads me ls } := by
  refine ⟨?_, h.ready⟩
  intro a l hl
  by_cases ha : a = me
  · subst ha
    obtain ⟨m, hm, he⟩ := exists_mem_of_map_name hn (by simpa using hl)
    obtain ⟨hk, hf⟩ := Prod.mk.inj he
    rw [← hk, ← hf]
    exact h.live a m hm
  · exact h.live a l (by simpa [ha] using hl)

theorem effect (h : Rooted deeds v) (hs : Sound v) (he : Effect v me d w) :
    Rooted (deeds ++ d.toList) w := by
  cases he with
  | nothing => simpa using h
  | publishes f x => exact ⟨by simpa [publish] using h.live, by simpa [publish] using h.ready⟩
  | evicts key => exact h.evicts key
  | clears => exact .clears deeds v
  | begins ending hp hn => exact h.begins hs ending hn
  | waits hp hn hf ho hd => exact ⟨by simpa using h.live, by simpa using h.ready⟩
  | ends hp hl => exact h.ends hs hl
  | tells hl =>
    exact ⟨by simpa [finishEnding_eq] using h.live, by simpa [finishEnding_eq] using h.ready⟩
  | wakes hp hf hd => exact ⟨by simpa [awaken] using h.live, by simpa [awaken] using h.ready⟩

end Rooted

namespace Logged

omit [DecidableEq κ] in
/-- A move that is neither a beginning nor an end adds nothing to the log. -/
theorem of_same {es : List (Deed κ ν ε)} (h : Logged deeds v)
    (hb : ∀ key f, .begins key f ∈ es ↔ .begins key f ∈ deeds)
    (he : ∀ l, .ends l ∈ es ↔ .ends l ∈ deeds)
    (hlen : w.cache.flights.length = v.cache.flights.length)
    (hl : ∀ a, (w.loads a).map Load.name = (v.loads a).map Load.name)
    (hw : ∀ a p, w.stage a = .waiting p → .begins p.key p.flight ∈ deeds)
    (ht : ∀ a l, w.stage a = .telling l → .ends l ∈ deeds)
    (hf : ∀ f flight, w.cache.flights.get? f = some flight → flight.state ≠ .running →
      ∃ l, .ends l ∈ deeds ∧ l.flight = f ∧ flight.state = l.ending.state) : Logged es w := by
  refine ⟨?_, ?_, ?_, ?_, ?_, ?_, ?_, ?_⟩
  · simpa only [hb, hlen] using h.begun_lt
  · simpa only [hb] using h.begun_inj
  · simpa only [hb, he] using h.ended
  · simpa only [he] using h.ended_inj
  · intro a l hm
    obtain ⟨m, hm, hn⟩ := exists_mem_of_map_name (hl a) hm
    obtain ⟨hk, hfl⟩ := Prod.mk.inj hn
    simpa only [hb, he, hk, hfl] using h.live a m hm
  · simpa only [hb] using hw
  · simpa only [he] using ht
  · simpa only [he] using hf

omit [DecidableEq κ] in
theorem start : Logged [] (System.start : System θ κ ν ε).view := by
  refine ⟨by simp, by simp, by simp, by simp, ?_, ?_, ?_, ?_⟩ <;>
    simp [System.view, System.start, System.loads, System.stage, SingleFlight.empty]

theorem begins (h : Logged deeds v) (key : κ) (ending : Ending ν ε)
    (hn : v.cache.flights.get? v.cache.flights.length = none) :
    Logged (deeds ++ [.begins key v.cache.flights.length])
      ⟨{ v.cache with
          slots := v.cache.slots.set key (.loading v.cache.flights.length)
          flights := v.cache.flights.set v.cache.flights.length ⟨me, none, .running⟩ },
        Function.update v.loads me (⟨key, v.cache.flights.length, ending⟩ :: v.loads me),
        v.stage⟩ := by
  have hlen : (v.cache.flights.set v.cache.flights.length ⟨me, none, .running⟩).length =
      v.cache.flights.length + 1 := by simp [Table.length_set, hn]
  have hsnoc (k : κ) (f : Nat) :
      (.begins k f : Deed κ ν ε) ∈ deeds ++ [.begins key v.cache.flights.length] ↔
        .begins k f ∈ deeds ∨ k = key ∧ f = v.cache.flights.length := by simp
  have hends (l : Load κ ν ε) :
      (.ends l : Deed κ ν ε) ∈ deeds ++ [.begins key v.cache.flights.length] ↔
        .ends l ∈ deeds := by simp
  refine ⟨?_, ?_, ?_, ?_, ?_, ?_, ?_, ?_⟩
  · intro k f hm
    rw [hlen]
    rcases (hsnoc k f).mp hm with hm | ⟨-, rfl⟩
    · exact Nat.lt_succ_of_lt (h.begun_lt k f hm)
    · exact Nat.lt_succ_self _
  · intro k k' f hm hm'
    rcases (hsnoc k f).mp hm with hk | ⟨rfl, he⟩ <;>
      rcases (hsnoc k' f).mp hm' with hk' | ⟨rfl, he'⟩
    · exact h.begun_inj k k' f hk hk'
    · exact absurd he' (Nat.ne_of_lt (h.begun_lt k f hk))
    · exact absurd he (Nat.ne_of_lt (h.begun_lt k' f hk'))
    · rfl
  · intro l hm
    exact (hsnoc _ _).mpr (.inl (h.ended l ((hends l).mp hm)))
  · simpa only [hends] using h.ended_inj
  · intro a l hl
    have hold (hl : l ∈ v.loads a) := h.live a l hl
    simp only [hsnoc, hends]
    by_cases ha : a = me
    · subst ha
      rcases List.mem_cons.mp (by simpa using hl) with rfl | hl
      · refine ⟨.inr ⟨rfl, rfl⟩, ?_⟩
        intro m hm
        exact Nat.ne_of_lt (h.begun_lt _ _ (h.ended m hm))
      · exact ⟨.inl (hold hl).1, (hold hl).2⟩
    · have hl : l ∈ v.loads a := by simpa [ha] using hl
      exact ⟨.inl (hold hl).1, (hold hl).2⟩
  · intro a p hp
    exact (hsnoc _ _).mpr (.inl (h.awaited a p hp))
  · simpa only [hends] using h.told
  · intro f flight hf hr
    simp only [Table.get?_set] at hf
    split at hf
    · obtain rfl := Option.some.inj hf
      exact absurd rfl hr
    · simpa only [hends] using h.finished f flight hf hr

theorem ends (h : Logged deeds v) (hs : Sound v) {l : Load κ ν ε} {rest : List (Load κ ν ε)}
    (hl : v.loads me = l :: rest) :
    Logged (deeds ++ [.ends l]) ⟨System.storeEnding v.cache l, Function.update v.loads me rest,
      Function.update v.stage me (.telling l)⟩ := by
  have hlm : l ∈ v.loads me := by simp [hl]
  have hbegins (k : κ) (f : Nat) :
      (.begins k f : Deed κ ν ε) ∈ deeds ++ [.ends l] ↔ .begins k f ∈ deeds := by simp
  have hends (m : Load κ ν ε) :
      (.ends m : Deed κ ν ε) ∈ deeds ++ [.ends l] ↔ .ends m ∈ deeds ∨ m = l := by simp
  obtain ⟨hbegun, hfresh⟩ := h.live me l hlm
  refine ⟨?_, ?_, ?_, ?_, ?_, ?_, ?_, ?_⟩
  · simpa only [hbegins, flights_storeEnding] using h.begun_lt
  · simpa only [hbegins] using h.begun_inj
  · intro m hm
    rw [hbegins]
    rcases (hends m).mp hm with hm | rfl
    · exact h.ended m hm
    · exact hbegun
  · intro m n hm hn he
    rcases (hends m).mp hm with hm' | rfl <;> rcases (hends n).mp hn with hn' | rfl
    · exact h.ended_inj m n hm' hn' he
    · exact absurd he (hfresh m hm')
    · exact absurd he.symm (hfresh n hn')
    · rfl
  · intro a m hm
    obtain ⟨hma, hne⟩ := hs.mem_of_rest hl hm
    obtain ⟨hmb, hmf⟩ := h.live a m hma
    refine ⟨(hbegins _ _).mpr hmb, ?_⟩
    intro n hn
    rcases (hends n).mp hn with hn | rfl
    · exact hmf n hn
    · exact Ne.symm hne
  · intro a p hp
    by_cases ha : a = me
    · subst ha
      simp at hp
    · exact (hbegins _ _).mpr (h.awaited a p (by simpa [ha] using hp))
  · intro a m hm
    by_cases ha : a = me
    · subst ha
      obtain rfl : l = m := by simpa using hm
      simp
    · exact (hends m).mpr (.inl (h.told a m (by simpa [ha] using hm)))
  · intro f flight hf hr
    obtain ⟨m, hm, he⟩ := h.finished f flight (by simpa using hf) hr
    exact ⟨m, (hends m).mpr (.inl hm), he⟩

omit [DecidableEq κ] in
theorem tells (h : Logged deeds v) {l : Load κ ν ε} (hst : v.stage me = .telling l) :
    Logged deeds { v with
      cache := System.finishEnding v.cache l
      stage := Function.update v.stage me .ready } := by
  refine h.of_same (by simp) (by simp) (by simp [finishEnding_eq]) (by simp) ?_ ?_ ?_
  · intro a p hp
    by_cases ha : a = me
    · subst ha
      simp at hp
    · exact h.awaited a p (by simpa [ha] using hp)
  · intro a m hm
    by_cases ha : a = me
    · subst ha
      simp at hm
    · exact h.told a m (by simpa [ha] using hm)
  · intro f flight hf hr
    simp only [finishEnding_eq, get?_updateFlight] at hf
    split at hf
    next he =>
      obtain ⟨old, -, rfl⟩ := Option.map_eq_some_iff.mp hf
      exact ⟨l, h.told me l hst, he, rfl⟩
    · exact h.finished f flight hf hr

theorem effect (h : Logged deeds v) (hs : Sound v) (he : Effect v me d w) :
    Logged (deeds ++ d.toList) w := by
  cases he with
  | nothing => simpa using h
  | publishes f x =>
    refine h.of_same (by simp) (by simp) (by simp [publish]) (by simp) h.awaited h.told ?_
    intro g flight hg hr
    simp only [publish, get?_updateFlight] at hg
    split at hg
    · obtain ⟨old, hold, rfl⟩ := Option.map_eq_some_iff.mp hg
      exact h.finished g old hold hr
    · exact h.finished g flight hg hr
  | evicts key =>
    exact h.of_same (by simp) (by simp) (by rfl) (by simp) h.awaited h.told h.finished
  | clears => exact h.of_same (by simp) (by simp) (by rfl) (by simp) h.awaited h.told h.finished
  | begins ending hp hn => exact h.begins _ ending hs.get?_length
  | @waits p flight hp hn hf ho hd =>
    refine h.of_same (by simp) (by simp) (by rfl) (by simp) ?_ ?_ h.finished
    · intro a q hq
      by_cases ha : a = me
      · subst ha
        obtain rfl : p = q := by simpa using hq
        obtain ⟨b, l, hl, he⟩ := hs.attached _ _ hn
        obtain ⟨hk, hfl⟩ := Prod.mk.inj he
        rw [← hk, ← hfl]
        exact (h.live b l hl).1
      · exact h.awaited a q (by simpa [ha] using hq)
    · intro a l hl
      by_cases ha : a = me
      · subst ha
        simp at hl
      · exact h.told a l (by simpa [ha] using hl)
  | ends hp hl => exact h.ends hs hl
  | tells hl => simpa using h.tells hl
  | wakes hp hf hd =>
    refine h.of_same (by simp) (by simp) (by rfl) (by simp) ?_ ?_ h.finished
    · intro a q hq
      by_cases ha : a = me
      · subst ha
        simp at hq
      · exact h.awaited a q (by simpa [ha] using hq)
    · intro a l hl
      by_cases ha : a = me
      · subst ha
        simp at hl
      · exact h.told a l (by simpa [ha] using hl)

end Logged

/-- The account that a run gives of its state. -/
structure Accounted (deeds : List (Deed κ ν ε)) (v : View θ κ ν ε) : Prop where
  sound : Sound v
  rooted : Rooted deeds v
  logged : Logged deeds v

namespace Accounted

theorem effect (h : Accounted deeds v) (he : Effect v me d w) : Accounted (deeds ++ d.toList) w :=
  ⟨h.sound.effect he, h.rooted.effect h.sound he, h.logged.effect h.sound he⟩

theorem replans (h : Accounted deeds v) {ls : List (Load κ ν ε)}
    (hn : ls.map Load.name = (v.loads me).map Load.name) :
    Accounted deeds { v with loads := Function.update v.loads me ls } := by
  refine ⟨h.sound.replans hn, h.rooted.replans hn, ?_⟩
  refine h.logged.of_same (by simp) (by simp) rfl ?_ h.logged.awaited h.logged.told
    h.logged.finished
  intro a
  by_cases ha : a = me
  · subst ha
    simpa using hn
  · simp [ha]

end Accounted

theorem Run.accounted {s : System θ κ ν ε} (h : Run .start deeds s) : Accounted deeds s.view :=
  h.preserves ⟨.start, .start, .start⟩ (fun h he => h.effect he) fun h hn => h.replans hn

end

end Cascade.SingleFlight
