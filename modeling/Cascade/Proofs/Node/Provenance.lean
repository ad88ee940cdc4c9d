import Cascade.Node.Dump
import Cascade.Proofs.Node.ClassLists
import Cascade.Proofs.Node.Requests
import Cascade.Proofs.Value
import Mathlib.Order.Bounds.Basic
/-!
The levels that classes come from. A node registers with each class the most important level that
lists it, when it looks at the lists of all levels. A change of one list changes the registration
too, but does not look at the other lists. So the registrations stay right as long as no class is
assigned below a level that lists it already, and none is removed that another level still lists.
-/
namespace Cascade

namespace Node

/-- The classes that a level lists. -/
def listedAt (n : Node) (level : Nat) : Set String :=
  {c | ∃ l, n.compiled.levels[level]? = some l ∧ c ∈ classesIn (l.get? n.classListKey)}

theorem listedAt_of_level {n : Node} {level : Nat} {l : CompiledLevel}
    (hl : n.compiled.levels[level]? = some l) :
    n.listedAt level = classesIn (l.get? n.classListKey) := by
  ext c
  simp [listedAt, hl]

/-- A level lists a class, under whatever form of its name. -/
def Lists (n : Node) (level : Nat) (c : String) : Prop := Name.normalize c ∈ n.listedAt level

/-- Every class that is listed is registered with the most important level that lists it, and no
other class is registered. -/
def Provenanced (n : Node) : Prop :=
  ∀ c level, n.source? .hostClass c = some level ↔ IsLeast {l | n.Lists l c} level

/-- Every class is registered with a level that lists it. -/
def Backed (n : Node) : Prop := ∀ c level, n.source? .hostClass c = some level → n.Lists level c

/-- Nothing is registered when a node is made. -/
theorem backed_of_create {files : Files} {certname : String} {facts : Facts}
    {hierarchy : Hierarchy} {loader : Loader} {node : Node}
    (h : Node.create files certname facts hierarchy loader = .ok node) : node.Backed := by
  obtain ⟨compiled, -, rfl⟩ := Node.exists_of_create h
  intro c level hc
  exact absurd hc (by simp [source?])

section Included

variable {t : Table String Nat} {key c : String} {n level : Nat} {l : CompiledLevel}
  {ls : List CompiledLevel}

/-- A name that has no level yet gets this one. -/
theorem get?_addNames (names : List String) : (addNames t n names).get? c = some level ↔
    t.get? c = some level ∨
      t.get? c = none ∧ level = n ∧ ∃ name ∈ names, Name.normalize name = c := by
  induction names generalizing t with
  | nil => simp [addNames]
  | cons name names ih =>
    have hstep : addNames t n (name :: names) =
        addNames (if t.contains (Name.normalize name) then t else t.set (Name.normalize name) n) n
          names := rfl
    rw [hstep, ih]
    by_cases hin : t.contains (Name.normalize name)
    · rw [if_pos hin]
      have hne : t.get? c = none → Name.normalize name ≠ c := by
        rintro hnone rfl
        rw [Table.contains, hnone] at hin
        exact absurd hin (by simp)
      constructor
      · rintro (h | ⟨hnone, rfl, m, hm, rfl⟩)
        · exact .inl h
        · exact .inr ⟨hnone, rfl, m, List.mem_cons_of_mem _ hm, rfl⟩
      · rintro (h | ⟨hnone, rfl, m, hm, rfl⟩)
        · exact .inl h
        · refine .inr ⟨hnone, rfl, m, ?_, rfl⟩
          rcases List.mem_cons.mp hm with rfl | hm
          · exact absurd rfl (hne hnone)
          · exact hm
    · rw [if_neg hin, Table.get?_set]
      have hnew : t.get? (Name.normalize name) = none := by
        rw [Table.contains, Option.isSome_iff_ne_none, not_not] at hin
        exact hin
      by_cases hc : Name.normalize name = c
      · subst hc
        simp [hnew, eq_comm]
      · simp [hc]

/-- The numbers, from `n` on, of the levels that list a class. -/
def levelsFrom (key c : String) (n : Nat) (ls : List CompiledLevel) : Set Nat :=
  {k | ∃ i l, ls[i]? = some l ∧ n + i = k ∧ c ∈ classesIn (l.get? key)}

theorem mem_levelsFrom_cons {k : Nat} : k ∈ levelsFrom key c n (l :: ls) ↔
    (k = n ∧ c ∈ classesIn (l.get? key)) ∨ k ∈ levelsFrom key c (n + 1) ls := by
  constructor
  · rintro ⟨i, l', hi, rfl, hc⟩
    cases i with
    | zero =>
      obtain rfl : l = l' := Option.some.inj hi
      exact .inl ⟨rfl, hc⟩
    | succ i => exact .inr ⟨i, l', hi, by omega, hc⟩
  · rintro (⟨rfl, hc⟩ | ⟨i, l', hi, rfl, hc⟩)
    · exact ⟨0, l, rfl, rfl, hc⟩
    · exact ⟨i + 1, l', hi, by omega, hc⟩

theorem le_of_mem_levelsFrom {k : Nat} (h : k ∈ levelsFrom key c n ls) : n ≤ k := by
  obtain ⟨i, l, -, rfl, -⟩ := h
  exact Nat.le_add_right n i

theorem isLeast_levelsFrom_cons : IsLeast (levelsFrom key c n (l :: ls)) level ↔
    (level = n ∧ c ∈ classesIn (l.get? key)) ∨
      c ∉ classesIn (l.get? key) ∧ IsLeast (levelsFrom key c (n + 1) ls) level := by
  have hlater : ∀ k ∈ levelsFrom key c (n + 1) ls, n + 1 ≤ k := fun k => le_of_mem_levelsFrom
  by_cases hc : c ∈ classesIn (l.get? key)
  · have hleast : IsLeast (levelsFrom key c n (l :: ls)) n :=
      ⟨mem_levelsFrom_cons.mpr (.inl ⟨rfl, hc⟩), fun k => le_of_mem_levelsFrom⟩
    constructor
    · intro h
      exact .inl ⟨h.unique hleast, hc⟩
    · rintro (⟨rfl, -⟩ | ⟨hn, -⟩)
      · exact hleast
      · exact absurd hc hn
  · have hsame : levelsFrom key c n (l :: ls) = levelsFrom key c (n + 1) ls := by
      ext k
      simp [mem_levelsFrom_cons, hc]
    simp [hsame, hc]

/-- What is listed comes to count for the first level that lists it. -/
theorem get?_foldl_addNames :
    (((Compiled.lookupFrom key n ls).foldl
      (fun classes e => addNames classes e.2 (namesIn e.1)) t).get? c = some level) ↔
    t.get? c = some level ∨ t.get? c = none ∧ IsLeast (levelsFrom key c n ls) level := by
  induction ls generalizing t n with
  | nil =>
    have hnone : ¬ IsLeast (levelsFrom key c n []) level := by
      rintro ⟨⟨i, l, hi, -⟩, -⟩
      exact absurd hi (by simp)
    simp [Compiled.lookupFrom, hnone]
  | cons l ls ih =>
    rw [isLeast_levelsFrom_cons]
    unfold Compiled.lookupFrom
    cases hv : l.get? key with
    | none =>
      have hc : c ∉ classesIn none := by simp [classesIn]
      simp [ih, hc]
    | some v =>
      rw [List.foldl_cons, ih, get?_addNames, classesIn_some]
      have hnone : (addNames t n (namesIn v)).get? c = none ↔
          t.get? c = none ∧ ¬ ∃ name ∈ namesIn v, Name.normalize name = c := by
        rw [← Option.not_isSome_iff_eq_none, Option.isSome_iff_exists]
        simp only [get?_addNames, exists_or]
        cases t.get? c <;> simp
      rw [hnone]
      by_cases hc : ∃ name ∈ namesIn v, Name.normalize name = c
      · simp [hc]
      · simp [hc]

theorem get?_listedClasses (node : Node) : node.listedClasses.get? c = some level ↔
    IsLeast (levelsFrom node.classListKey c 0 node.compiled.levels) level := by
  rw [listedClasses, Compiled.lookupAll]
  refine get?_foldl_addNames.trans ?_
  simp

/-- The names of classes are written in one form, and each of them once. -/
structure Neat (t : Table String Nat) : Prop where
  nodup : t.keys.Nodup
  normal : ∀ k ∈ t.keys, Name.normalize k = k

theorem Neat.addNames (h : Neat t) (n : Nat) (names : List String) :
    Neat (Node.addNames t n names) := by
  induction names generalizing t with
  | nil => exact h
  | cons name names ih =>
    refine ih (t := if t.contains (Name.normalize name) then t else t.set (Name.normalize name) n) ?_
    split
    · exact h
    · refine ⟨Table.nodup_keys_set h.nodup _ _, fun k hk => ?_⟩
      rw [Table.keys_set] at hk
      split at hk
      · exact h.normal k hk
      · rcases List.mem_append.mp hk with hk | hk
        · exact h.normal k hk
        · rw [List.mem_singleton.mp hk, Name.normalize_normalize]

theorem neat_listedClasses (node : Node) : Neat node.listedClasses := by
  have hfold : ∀ (es : List (Value × Nat)) (t : Table String Nat), Neat t →
      Neat (es.foldl (fun classes e => Node.addNames classes e.2 (namesIn e.1)) t) := by
    intro es
    induction es with
    | nil => exact fun t h => h
    | cons e es ih => exact fun t h => ih _ (h.addNames e.2 (namesIn e.1))
  exact hfold _ [] ⟨List.nodup_nil, by simp [Table.keys]⟩

theorem source?_registerSource (node : Node) (name : String) :
    (node.registerSource .hostClass name n).source? .hostClass c =
      if Name.normalize name = Name.normalize c then some n else node.source? .hostClass c := by
  simp [source?, registerSource, Table.get?_set]

/-- Registering classes one after the other. -/
theorem source?_foldl_registerSource (h : Neat t) (node : Node) :
    (t.foldl (fun node e => node.registerSource .hostClass e.1 e.2) node).source? .hostClass c =
      (t.get? (Name.normalize c)).or (node.source? .hostClass c) := by
  induction t generalizing node with
  | nil => rfl
  | cons e t ih =>
    obtain ⟨k, v⟩ := e
    obtain ⟨hk, hnodup⟩ := List.nodup_cons.mp h.nodup
    have hneat : Neat t := ⟨hnodup, fun k hk => h.normal k (List.mem_cons_of_mem _ hk)⟩
    rw [List.foldl_cons, ih hneat, source?_registerSource, h.normal k List.mem_cons_self,
      Table.get?_cons]
    by_cases hc : k = Name.normalize c
    · have hnone : Table.get? t (Name.normalize c) = none := by
        rw [← Option.not_isSome_iff_eq_none, Option.isSome_iff_exists]
        rintro ⟨w, hw⟩
        exact hk (hc ▸ Table.mem_keys_of_get? t hw)
      simp [hc, hnone]
    · simp [hc]

theorem lists_iff {node : Node} :
    node.Lists level c ↔ level ∈ levelsFrom node.classListKey (Name.normalize c) 0
      node.compiled.levels := by
  constructor
  · rintro ⟨l, hl, hc⟩
    exact ⟨level, l, hl, Nat.zero_add level, hc⟩
  · rintro ⟨i, l, hl, rfl, hc⟩
    exact ⟨l, by rwa [Nat.zero_add], hc⟩

/-- A look at all lists finds the level that counts for each class. -/
theorem get?_listedClasses_iff {node : Node} : node.listedClasses.get? (Name.normalize c) =
    some level ↔ IsLeast {l | node.Lists l c} level := by
  have hset : {l | node.Lists l c} = levelsFrom node.classListKey (Name.normalize c) 0
      node.compiled.levels := Set.ext fun _ => lists_iff
  rw [hset]
  exact get?_listedClasses node

/-- After a look at all lists the registrations are right. -/
theorem Backed.provenanced_included {node : Node} (h : node.Backed) :
    node.includedClasses.2.Provenanced := by
  have hcompiled : ∀ (t : Table String Nat) (n : Node),
      (t.foldl (fun n e => n.registerSource .hostClass e.1 e.2) n).compiled = n.compiled ∧
      (t.foldl (fun n e => n.registerSource .hostClass e.1 e.2) n).classListKey =
        n.classListKey := by
    intro t
    induction t with
    | nil => exact fun n => ⟨rfl, rfl⟩
    | cons e t ih => exact fun n => ih (n.registerSource .hostClass e.1 e.2)
  intro c level
  have hlists : ∀ l, node.includedClasses.2.Lists l c ↔ node.Lists l c := by
    intro l
    rw [Lists, listedAt, includedClasses, (hcompiled node.listedClasses node).1,
      (hcompiled node.listedClasses node).2]
    rfl
  have hsource : node.includedClasses.2.source? .hostClass c =
      (node.listedClasses.get? (Name.normalize c)).or (node.source? .hostClass c) :=
    source?_foldl_registerSource (neat_listedClasses node) node
  simp only [hlists, hsource]
  rw [Option.or_eq_some_iff, get?_listedClasses_iff]
  refine or_iff_left ?_
  rintro ⟨hnone, hold⟩
  -- A class that is registered is listed, so one of its levels is the first.
  have hlisted : {l | node.Lists l c}.Nonempty := ⟨level, h c level hold⟩
  have hfirst := get?_listedClasses_iff.mpr (isLeast_csInf hlisted)
  rw [hnone] at hfirst
  exact absurd hfirst (by simp)

end Included

end Node

namespace ClassCall

variable {c : ClassCall} {d : String} {level : Nat} {s : Set String}

theorem mem_apply_self (level : Nat) :
    Name.normalize c.name ∈ c.apply s ↔ c.registered level = some level := by
  cases c <;> simp [apply, registered, name]

theorem mem_apply_of_ne (hd : d ≠ Name.normalize c.name) : d ∈ c.apply s ↔ d ∈ s := by
  cases c <;> simp_all [apply, name]

/-- A class goes to a level above another one that lists it. None is removed that is still listed. -/
def Outranks (level other : Nat) : ClassCall → Prop
  | assign _ => level < other
  | remove _ => False

/-- The level that a change registers is the first that lists the class then, if and only if it
outranks the others that list it. -/
theorem registered_iff (c : ClassCall) (level : Nat) (others : Nat → Prop) :
    (∀ l, c.registered level = some l ↔ IsLeast {k | (k = level ∧
      c.registered level = some level) ∨ (k ≠ level ∧ others k)} l) ↔
    ∀ k ≠ level, others k → c.Outranks level k := by
  cases c with
  | assign name =>
    constructor
    · intro h k hk ho
      have hleast := (h level).mp rfl
      exact lt_of_le_of_ne (hleast.2 (.inr ⟨hk, ho⟩)) (Ne.symm hk)
    · intro h l
      have hleast : IsLeast {k | (k = level ∧ some level = some level) ∨ (k ≠ level ∧ others k)}
          level := by
        refine ⟨.inl ⟨rfl, rfl⟩, ?_⟩
        rintro k (⟨rfl, -⟩ | ⟨hk, ho⟩)
        · exact le_rfl
        · exact (h k hk ho).le
      constructor
      · intro he
        obtain rfl := Option.some.inj he
        exact hleast
      · intro hl
        exact congrArg some (hleast.unique hl)
  | remove name =>
    constructor
    · intro h k hk ho
      have hlisted : {k | (k = level ∧ none = some level) ∨ (k ≠ level ∧ others k)}.Nonempty :=
        ⟨k, .inr ⟨hk, ho⟩⟩
      exact absurd ((h _).mpr (isLeast_csInf hlisted)) nofun
    · intro h l
      refine ⟨nofun, ?_⟩
      rintro ⟨⟨-, hl⟩ | ⟨hk, ho⟩, -⟩
      · exact absurd hl nofun
      · exact (h l hk ho).elim

end ClassCall

namespace Host

variable {h h' : Host} {level : Nat} {c : ClassCall}

theorem exists_level_of_namesAt {n : Node} {names : List String}
    (h : n.namesAt level = .ok names) : ∃ l, n.compiled.levels[level]? = some l := by
  obtain ⟨v, hv, -⟩ := bind_eq_ok.mp h
  obtain ⟨l, hl, -⟩ := bind_eq_ok.mp (NodeError.liftM_eq_ok.mp hv)
  exact ⟨l, Compiled.getElem?_of_level hl⟩

theorem exists_level_of_change (hc : h.change c level = .ok h') :
    ∃ l, h.node.compiled.levels[level]? = some l := by
  cases c with
  | assign name =>
    obtain ⟨names, hn, -⟩ := bind_eq_ok.mp hc
    exact exists_level_of_namesAt hn
  | remove name =>
    cases hr : h.removeClass name level with
    | error e => simp [change, hr, Except.map] at hc
    | ok r =>
      obtain ⟨names, hn, -⟩ := bind_eq_ok.mp hr
      exact exists_level_of_namesAt hn

/-- A change makes one level list other classes than before. -/
theorem Edits.listedAt {l : CompiledLevel} {classes : Set String}
    (he : h.Edits level l classes h') (hl : h.node.compiled.levels[level]? = some l) (k : Nat) :
    h'.node.listedAt k = if k = level then classes else h.node.listedAt k := by
  obtain ⟨copy, hcompiled, hkey, -, hclasses⟩ := he
  have hlt := (List.getElem?_eq_some_iff.mp hl).1
  split
  next hk =>
    subst hk
    have hl' : h'.node.compiled.levels[k]? = some { l with file := copy } := by
      rw [hcompiled, Compiled.putLevel, List.getElem?_set_self hlt]
    rw [Node.listedAt_of_level hl', hkey, ← hclasses]
    rfl
  next hk =>
    unfold Node.listedAt
    simp only [hcompiled, hkey, Compiled.putLevel, List.getElem?_set_ne (Ne.symm hk)]

/-- What a change comes to: nothing, or a list that is changed and one registration. -/
theorem change_effect (hc : h.change c level = .ok h') :
    c.apply (h.node.listedAt level) = h.node.listedAt level ∧ h' = h ∨
      c.apply (h.node.listedAt level) ≠ h.node.listedAt level ∧
        (∀ k, h'.node.listedAt k =
          if k = level then c.apply (h.node.listedAt level) else h.node.listedAt k) ∧
        ∀ d, h'.node.source? .hostClass d =
          if Name.normalize c.name = Name.normalize d then c.registered level
          else h.node.source? .hostClass d := by
  obtain ⟨l, hl⟩ := exists_level_of_change hc
  rw [Node.listedAt_of_level hl]
  rcases change_outcome hl hc with hidle | ⟨hne, he, hs⟩
  · exact .inl hidle
  · refine .inr ⟨hne, he.listedAt hl, fun d => ?_⟩
    rw [Node.source?, hs]
    simp [Node.source?]

/-- A change keeps the registrations right if and only if the level that it is made to outranks all
others that list the class. -/
theorem provenanced_change_iff (hp : h.node.Provenanced) (hc : h.change c level = .ok h') :
    h'.node.Provenanced ↔ (c.apply (h.node.listedAt level) ≠ h.node.listedAt level →
      ∀ k ≠ level, h.node.Lists k c.name → c.Outranks level k) := by
  rcases change_effect hc with ⟨hidle, rfl⟩ | ⟨hne, hlisted, hsource⟩
  · exact ⟨fun _ hn => absurd hidle hn, fun _ => hp⟩
  have hother : ∀ d, Name.normalize c.name ≠ Name.normalize d →
      ∀ l, h'.node.source? .hostClass d = some l ↔ IsLeast {k | h'.node.Lists k d} l := by
    intro d hd l
    have hsame : ∀ k, h'.node.Lists k d ↔ h.node.Lists k d := by
      intro k
      rw [Node.Lists, hlisted]
      split
      next hk => rw [hk, ClassCall.mem_apply_of_ne (Ne.symm hd)]; rfl
      next => rfl
    simp only [hsource, if_neg hd, hsame]
    exact hp d l
  have hself : ∀ d, Name.normalize c.name = Name.normalize d → ∀ k, h'.node.Lists k d ↔
      (k = level ∧ c.registered level = some level) ∨ (k ≠ level ∧ h.node.Lists k c.name) := by
    intro d hd k
    rw [Node.Lists, hlisted, ← hd]
    split
    next hk => simp [hk, ClassCall.mem_apply_self level]
    next hk => simp [hk, Node.Lists]
  have hiff := c.registered_iff level fun k => h.node.Lists k c.name
  constructor
  · intro hp' _
    refine hiff.mp fun l => ?_
    have hname := hp' c.name l
    rw [hsource, if_pos rfl] at hname
    simpa only [hself c.name rfl] using hname
  · intro hf d l
    by_cases hd : Name.normalize c.name = Name.normalize d
    · rw [hsource, if_pos hd]
      simpa only [hself d hd] using hiff.mpr (hf hne) l
    · exact hother d hd l

end Host

/-- A call that has to do with the lists of classes. -/
inductive ListingCall
  | included
  | change (c : ClassCall) (level : Nat)

namespace Host

/-- What a host has become after a call. One that fails leaves everything as it is. -/
def listing (h : Host) : ListingCall → Host
  | .included => { h with node := h.node.includedClasses.2 }
  | .change c level =>
    match h.change c level with
    | .ok h' => h'
    | .error _ => h

def listings (h : Host) (calls : List ListingCall) : Host := calls.foldl listing h

/-- A dump of a class tells the most important level that lists it, whatever else the evaluation
works on and however deep its requests nest. -/
def DumpsLevels (h : Host) : Prop :=
  ∀ (m : Machine Host) (depth : Nat) (name : String) (d : InstanceDump), m.host = h →
    ((Node.dumpClass (Node.resolver depth) name).run m).1 = .ok d →
    ∀ level, d.includedAt = some level ↔ IsLeast {l | h.node.Lists l d.name} level

/-- To look at an instance changes nothing. -/
theorem host_of_instanceAt {m m' : Machine Host} {i : Nat} {inst : Instance}
    (h : (Node.instanceAt i).run m = (.ok inst, m')) : m' = m := by
  rw [Node.instanceAt, run_bind, run_get] at h
  simp only at h
  split at h
  · exact (Prod.mk.inj h).2.symm
  · exact absurd (Prod.mk.inj h).1 nofun

/-- The level in a dump is the registered one. -/
theorem includedAt_of_dump {m : Machine Host} {depth : Nat} {name : String} {d : InstanceDump}
    (hd : ((Node.dumpClass (Node.resolver depth) name).run m).1 = .ok d) :
    d.includedAt = m.host.node.source? .hostClass d.name := by
  have hspares := (Node.resolver_spares depth).resolveClass name m
  rw [Node.dumpClass, run_bind] at hd
  rcases hr : ((Node.resolver depth).resolveClass name).run m with ⟨f | i, m₁⟩
  · rw [hr] at hd
    exact absurd hd nofun
  · rw [hr] at hspares hd
    simp only [Node.markPublic, run_bind, run_modify] at hd
    split at hd
    next inst m₂ hi =>
      have hsource := hspares.host.source inst.name
      obtain rfl := Except.ok.inj hd
      rw [host_of_instanceAt hi, Machine.host_updateInstance]
      exact hsource
    next => exact absurd hd nofun

theorem Provenanced.dumpsLevels {h : Host} (hp : h.node.Provenanced) : h.DumpsLevels := by
  rintro m depth name d rfl hd level
  rw [includedAt_of_dump hd]
  exact hp d.name level

end Host

/-- A change that is made outranks all other levels that list its class. -/
def ListingCall.Fits (h : Host) : ListingCall → Prop
  | .included => True
  | .change c level => (∃ h', h.change c level = .ok h') →
      c.apply (h.node.listedAt level) ≠ h.node.listedAt level →
        ∀ k ≠ level, h.node.Lists k c.name → c.Outranks level k

namespace Host

variable {h : Host}

theorem provenanced_listing_iff (hp : h.node.Provenanced) (c : ListingCall) :
    (h.listing c).node.Provenanced ↔ c.Fits h := by
  cases c with
  | included =>
    have hb : h.node.Backed := fun c level hc => ((hp c level).mp hc).1
    exact iff_of_true hb.provenanced_included trivial
  | change c level =>
    cases hc : h.change c level with
    | error e =>
      have hsame : h.listing (.change c level) = h := by rw [listing, hc]
      rw [hsame]
      exact iff_of_true hp fun ⟨h', hok⟩ => absurd (hc.symm.trans hok) nofun
    | ok h' =>
      have hthen : h.listing (.change c level) = h' := by rw [listing, hc]
      rw [hthen, provenanced_change_iff hp hc]
      exact ⟨fun hf _ => hf, fun hf => hf ⟨h', hc⟩⟩

/-- From the first look at all lists on, the registrations are right at every point, and so are the
levels that dumps tell, if and only if every change that is made until then outranks all other levels
that list its class. -/
theorem provenanced_iff (hb : h.node.Backed) (calls : List ListingCall) :
    (∀ pre, pre <+: calls → (h.listings (.included :: pre)).node.Provenanced ∧
      (h.listings (.included :: pre)).DumpsLevels) ↔
    ∀ pre c, pre ++ [c] <+: calls → c.Fits (h.listings (.included :: pre)) := by
  have hsnoc : ∀ pre c, h.listings (.included :: (pre ++ [c])) =
      (h.listings (.included :: pre)).listing c := by
    intro pre c
    rw [listings, ← List.cons_append, List.foldl_append]
    rfl
  constructor
  · intro hp pre c hpre
    have hbefore := (hp pre ((List.prefix_append pre [c]).trans hpre)).1
    have hafter := (hp (pre ++ [c]) hpre).1
    rw [hsnoc] at hafter
    exact (provenanced_listing_iff hbefore c).mp hafter
  · intro hf pre hpre
    have hright : (h.listings (.included :: pre)).node.Provenanced := by
      induction pre using List.reverseRecOn with
      | nil => exact hb.provenanced_included
      | append_singleton pre c ih =>
        have hbefore := ih ((List.prefix_append pre [c]).trans hpre)
        rw [hsnoc]
        exact (provenanced_listing_iff hbefore c).mpr (hf pre c hpre)
    exact ⟨hright, Provenanced.dumpsLevels hright⟩

section Layers

/-- The levels of an environment without a document, over an empty directory. -/
def layers : List CompiledLevel :=
  (Hierarchy.standard "env").levels.zipWith (fun level path => ⟨level, path, none, none⟩)
    ["env/data/nodes/n0.yaml", "env/data/common.yaml"]

/-- A node of such an environment that has just been made. -/
def layered : Host where
  node := { Fleet.newcomer "n0" with
    hierarchy := Hierarchy.standard "env"
    compiled := ⟨layers, []⟩ }
  world := .ofFiles (.empty [] 0) ⟨fun _ => 0, 0⟩

theorem create_layered : Node.create (.empty [] 0) "n0" [] (Hierarchy.standard "env") .shelf =
    .ok layered.node := rfl

/-- A class is assigned to the common level, and then to that of the node. -/
def rising : List ListingCall := [.change (.assign "a") 1, .change (.assign "a") 0]

theorem rising_provenanced_iff : layered.node.Backed ∧
    ((∀ pre, pre <+: rising → (layered.listings (.included :: pre)).node.Provenanced ∧
      (layered.listings (.included :: pre)).DumpsLevels) ↔
    ∀ pre c, pre ++ [c] <+: rising → c.Fits (layered.listings (.included :: pre))) ∧
    (layered.listings (.included :: rising)).node.source? .hostClass "a" = some 0 := by
  have hb := Node.backed_of_create create_layered
  exact ⟨hb, provenanced_iff hb rising, by decide +kernel⟩

/-- The names that a level lists, as they are written. -/
def names? (h : Host) (level : Nat) : Option (List String) :=
  (h.node.compiled.levels[level]?).bind fun l => (l.get? h.node.classListKey).map Node.namesIn

theorem lists_of_names? {h : Host} {level : Nat} {names : List String} {name : String}
    (hn : h.names? level = some names) (hm : name ∈ names) : h.node.Lists level name := by
  obtain ⟨l, hl, hmap⟩ := Option.bind_eq_some_iff.mp hn
  obtain ⟨v, hv, rfl⟩ := Option.map_eq_some_iff.mp hmap
  rw [Node.Lists, Node.listedAt_of_level hl, hv, classesIn_some]
  exact ⟨name, hm, rfl⟩

/-- A class of the level of the node is assigned to the common level too. -/
def falling : List ListingCall := [.included, .change (.assign "a") 0, .change (.assign "a") 1]

/-- It is registered with the common level then; removed from there again, it is not registered at
all. -/
theorem not_provenanced :
    Node.create (.empty [] 0) "n0" [] (Hierarchy.standard "env") .shelf = .ok layered.node ∧
    ¬ (layered.listings falling).node.Provenanced ∧
    ¬ (layered.listings (falling ++ [.included, .change (.remove "a") 1])).node.Provenanced := by
  refine ⟨create_layered, fun hp => ?_, fun hp => ?_⟩
  · have hnames : (layered.listings falling).names? 0 = some ["a"] := by decide +kernel
    have hsource : (layered.listings falling).node.source? .hostClass "a" = some 1 := by
      decide +kernel
    have hfirst := ((hp "a" 1).mp hsource).2 (lists_of_names? hnames (by decide))
    exact absurd hfirst (by decide)
  · have hnames : (layered.listings (falling ++ [.included, .change (.remove "a") 1])).names? 0 =
        some ["a"] := by decide +kernel
    have hsource : (layered.listings (falling ++ [.included,
        .change (.remove "a") 1])).node.source? .hostClass "a" = none := by decide +kernel
    have hlists := lists_of_names? hnames (by decide : "a" ∈ ["a"])
    have hfirst := (hp "a" _).mpr (isLeast_csInf ⟨0, hlists⟩)
    rw [hsource] at hfirst
    exact absurd hfirst nofun

end Layers

end Host

end Cascade
