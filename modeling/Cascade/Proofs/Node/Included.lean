import Cascade.Proofs.Node.Provenance
/-!
The list of classes of a node as it is put together from the lists of all levels, and what changes of
the list of one level do to it. Names are compared in one form throughout: a class that several levels
name, or one level under several forms of its name, comes up once, at the first place that names it.
-/
namespace Cascade

namespace Node

variable {n : Node} {level : Nat} {l : CompiledLevel} {names done : List String}
  {t : Table String Nat} {key c : String} {ls : List CompiledLevel}

/-- The names that a level lists, as they are written. What is not a name is passed over. -/
def namesOn (n : Node) (level : Nat) : List String :=
  ((n.compiled.levels[level]?).bind (·.get? n.classListKey)).elim [] namesIn

theorem lists_iff_namesOn :
    n.Lists level c ↔ ∃ name ∈ n.namesOn level, Name.normalize name = Name.normalize c := by
  rw [Lists, namesOn]
  cases hl : n.compiled.levels[level]? with
  | none => simp [listedAt, hl]
  | some l =>
    rw [listedAt_of_level hl, Option.bind_some]
    cases l.get? n.classListKey with
    | none => simp [classesIn]
    | some v => rw [classesIn_some]; rfl

theorem namesOn_of_namesAt (h : n.namesAt level = .ok names) : n.namesOn level = names := by
  obtain ⟨l, hl⟩ := Host.exists_level_of_namesAt h
  simp only [namesAt, Compiled.getAt, Compiled.level_eq_ok hl, Bind.bind, Except.bind, pure,
    Except.pure, NodeError.liftM_ok] at h
  rw [namesOn, hl, Option.bind_some]
  cases hv : l.get? n.classListKey with
  | none =>
    rw [hv] at h
    exact Except.ok.inj h
  | some v =>
    rw [hv] at h
    cases v with
    | undef | array | string => exact Except.ok.inj h
    | _ => simp [throw, throwThe, MonadExceptOf.throw] at h

/-- One class comes before another one: it is from a more important level, or the same level names it
first. -/
def Before (names : Nat → List String) (e e' : String × Nat) : Prop :=
  e.2 < e'.2 ∨ e.2 = e'.2 ∧ ((names e.2).map Name.normalize).idxOf e.1 <
    ((names e'.2).map Name.normalize).idxOf e'.1

section Order

variable {lists : Nat → List String} {k : Nat}

theorem addNames_snoc (t : Table String Nat) (k : Nat) (done : List String) (name : String) :
    addNames t k (done ++ [name]) =
      if (addNames t k done).contains (Name.normalize name) then addNames t k done
      else (addNames t k done).set (Name.normalize name) k := by
  rw [addNames, List.foldl_append]
  rfl

theorem mem_keys_addNames {name : String} (h : name ∈ done) :
    Name.normalize name ∈ (addNames t k done).keys := by
  have hsome : ∃ level, (addNames t k done).get? (Name.normalize name) = some level := by
    cases hold : t.get? (Name.normalize name) with
    | some level => exact ⟨level, get?_addNames done |>.mpr (.inl hold)⟩
    | none => exact ⟨k, get?_addNames done |>.mpr (.inr ⟨hold, rfl, name, h, rfl⟩)⟩
  obtain ⟨level, hlevel⟩ := hsome
  exact Table.mem_keys_of_get? _ hlevel

/-- A name that is added is new, so the level has not named it before, and all that it has named before
is earlier in its list. -/
theorem before_addNames (hlt : ∀ e ∈ t, e.2 < k) (ht : t.Pairwise (Before lists))
    (hdone : done <+: lists k) : (addNames t k done).Pairwise (Before lists) ∧
      ∀ e ∈ addNames t k done, e.2 < k ∨ e.2 = k ∧ e.1 ∈ done.map Name.normalize := by
  induction done using List.reverseRecOn with
  | nil => exact ⟨ht, fun e he => .inl (hlt e he)⟩
  | append_singleton done name ih =>
    obtain ⟨hpairs, hfrom⟩ := ih ((List.prefix_append done [name]).trans hdone)
    have hmono (e : String × Nat) (he : e ∈ addNames t k done) :
        e.2 < k ∨ e.2 = k ∧ e.1 ∈ (done ++ [name]).map Name.normalize := by
      refine (hfrom e he).imp_right fun ⟨hk, hin⟩ => ⟨hk, ?_⟩
      rw [List.map_append]
      exact List.mem_append_left _ hin
    rw [addNames_snoc]
    split
    next => exact ⟨hpairs, hmono⟩
    next hnew =>
      rw [Table.contains, Table.isSome_get?_iff] at hnew
      rw [Table.set_of_notMem hnew]
      have hfresh : Name.normalize name ∉ done.map Name.normalize := by
        rw [List.mem_map]
        rintro ⟨name', hin, heq⟩
        exact hnew (heq ▸ mem_keys_addNames hin)
      obtain ⟨rest, hrest⟩ := hdone
      have hlist : (lists k).map Name.normalize =
          done.map Name.normalize ++ Name.normalize name :: rest.map Name.normalize := by
        simp [← hrest]
      refine ⟨List.pairwise_append.mpr ⟨hpairs, List.pairwise_singleton _ _, ?_⟩, ?_⟩
      · intro e he e' he'
        obtain rfl := List.mem_singleton.mp he'
        refine (hfrom e he).imp_right fun ⟨hk, hin⟩ => ⟨hk, ?_⟩
        have hfirst := List.idxOf_lt_length_of_mem hin
        rw [hk, hlist, List.idxOf_append_of_mem hin, List.idxOf_append_of_notMem hfresh]
        exact Nat.lt_add_right _ hfirst
      · intro e he
        rcases List.mem_append.mp he with he | he
        · exact hmono e he
        · obtain rfl := List.mem_singleton.mp he
          exact .inr ⟨rfl, by simp⟩

theorem before_foldl_addNames
    (hlists : ∀ (i : Nat) (l : CompiledLevel), ls[i]? = some l →
      lists (k + i) = (l.get? key).elim [] namesIn)
    (hlt : ∀ e ∈ t, e.2 < k) (ht : t.Pairwise (Before lists)) :
    ((Compiled.lookupFrom key k ls).foldl (fun classes e => addNames classes e.2 (namesIn e.1))
      t).Pairwise (Before lists) := by
  induction ls generalizing t k with
  | nil => exact ht
  | cons l ls ih =>
    have hhead : lists k = (l.get? key).elim [] namesIn := hlists 0 l rfl
    have htail (i : Nat) (l' : CompiledLevel) (hi : ls[i]? = some l') :
        lists (k + 1 + i) = (l'.get? key).elim [] namesIn := by
      rw [Nat.add_assoc, Nat.add_comm 1 i]
      exact hlists (i + 1) l' hi
    unfold Compiled.lookupFrom
    cases hv : l.get? key with
    | none => exact ih htail (fun e he => Nat.lt_succ_of_lt (hlt e he)) ht
    | some v =>
      rw [hv, Option.elim_some] at hhead
      have hprefix : namesIn v <+: lists k := hhead ▸ List.prefix_rfl
      obtain ⟨hpairs, hfrom⟩ := before_addNames hlt ht hprefix
      refine ih htail (fun e he => ?_) hpairs
      rcases hfrom e he with h | ⟨h, -⟩ <;> omega

end Order

/-- All classes that levels name, each once and with the most important level that names it, in the
order of the levels and of the first places in their lists. -/
structure Merged (n : Node) (t : Table String Nat) : Prop where
  mem {c : String} {level : Nat} : (Name.normalize c, level) ∈ t ↔
    IsLeast {k | ∃ name ∈ n.namesOn k, Name.normalize name = Name.normalize c} level
  normal {e : String × Nat} : e ∈ t → Name.normalize e.1 = e.1
  once : (t.map (·.1)).Nodup
  order : t.Pairwise (Before n.namesOn)

theorem merged_listedClasses (n : Node) : n.Merged n.listedClasses := by
  have hneat := neat_listedClasses n
  constructor
  case mem =>
    intro c level
    simp only [← lists_iff_namesOn, ← get?_listedClasses_iff]
    exact ⟨Table.get?_of_mem hneat.nodup, Table.mem_of_get?⟩
  case normal => exact fun he => hneat.normal _ (List.mem_map_of_mem he)
  case once => exact hneat.nodup
  case order =>
    refine before_foldl_addNames (fun i l hi => ?_) (by simp) .nil
    rw [namesOn, Nat.zero_add, hi, Option.bind_some]

end Node

namespace Host

variable {h h' : Host} {level : Nat} {l : CompiledLevel} {name : String} {names : List String}

/-- A level lists these names now, in the copy of its file that is kept, and all others list what they
did. -/
structure Relisted (h : Host) (level : Nat) (names : List String) (h' : Host) : Prop where
  list : h'.node.namesAt level = .ok names
  other {k : Nat} : k ≠ level → h'.node.namesAt k = h.node.namesAt k
  kept : ∃ l copy, h.node.compiled.levels[level]? = some l ∧
    h'.node.compiled = h.node.compiled.putLevel level { l with file := copy } ∧
    DataFile.Kept l.path h.world.files copy h'.world.files

theorem namesAt_of_listed? {n : Node} (hl : n.compiled.levels[level]? = some l)
    (hv : l.get? n.classListKey = listed? names) : n.namesAt level = .ok names := by
  unfold Node.namesAt
  simp only [Compiled.getAt, Compiled.level_eq_ok hl, Bind.bind, Except.bind, pure, Except.pure,
    NodeError.liftM_ok, hv]
  by_cases hnil : names.isEmpty
  · rw [listed?, if_pos hnil, List.isEmpty_iff.mp hnil]
  · rw [listed?, if_neg hnil]
    exact congrArg Except.ok (namesIn_listOf names)

theorem Relists.relisted (hl : h.node.compiled.levels[level]? = some l)
    (hr : h.Relists level l (listed? names) h') : h.Relisted level names h' := by
  obtain ⟨copy, hcompiled, hkey, hkept, hv⟩ := hr
  have hlt := (List.getElem?_eq_some_iff.mp hl).1
  refine ⟨?_, fun {k} hk => ?_, l, copy, hl, hcompiled, hkept⟩
  · refine namesAt_of_listed? (l := { l with file := copy }) ?_ (hkey.symm ▸ hv)
    rw [hcompiled, Compiled.putLevel, List.getElem?_set_self hlt]
  · unfold Node.namesAt Compiled.getAt Compiled.level
    rw [hkey, hcompiled, Compiled.putLevel, List.getElem?_set_ne (Ne.symm hk), List.length_set]

theorem assignClass_of_named (hn : h.node.namesAt level = .ok names)
    (hin : ∃ n ∈ names, Name.normalize n = Name.normalize name) :
    h.assignClass name level = .ok h := by
  rw [assignClass, hn]
  have hany : (names.any fun n => Name.normalize n == Name.normalize name) = true := by
    simpa only [List.any_eq_true, beq_iff_eq] using hin
  exact if_pos hany

/-- A class that the level does not have can fail to be assigned only when the file is written. -/
theorem error_of_assignClass {e : NodeError} (hl : h.node.compiled.levels[level]? = some l)
    (hn : h.node.namesAt level = .ok names)
    (hout : ¬∃ n ∈ names, Name.normalize n = Name.normalize name)
    (ha : h.assignClass name level = .error e) :
    ∃ e', e = .hierarchy e' ∧ l.set h.world.files h.node.classListKey
      (Node.listOf (names ++ [Name.normalize name])) = .error e' := by
  have hany : ¬(names.any fun n => Name.normalize n == Name.normalize name) = true := by
    simpa only [List.any_eq_true, beq_iff_eq] using hout
  rw [assignClass, hn] at ha
  simp only [Bind.bind, Except.bind] at ha
  rw [if_neg hany, Compiled.assignRaw, Compiled.level_eq_ok hl] at ha
  cases hset : l.set h.world.files h.node.classListKey
      (Node.listOf (names ++ [Name.normalize name])) with
  | error e' =>
    simp only [Bind.bind, Except.bind, hset, NodeError.liftM_error] at ha
    exact ⟨e', (Except.error.inj ha).symm, rfl⟩
  | ok r =>
    simp [Bind.bind, Except.bind, hset, pure, Except.pure] at ha

/-- A look at all levels merges what they list: every class once, with the most important level that
names it, in the order in which they are first named. What is removed from a list goes under all forms
of its name and leaves the rest in order; what is assigned and was not there comes to the end of the
list, once for all forms of its name, unless the file cannot be written. -/
theorem class_lists_merge (h : Host) :
    h.node.Merged h.node.includedClasses.1 ∧
    (∀ name level h', h.removeClass name level = .ok (true, h') →
      ∃ names, h.node.namesAt level = .ok names ∧ h.Relisted level
          (names.filter fun n => Name.normalize n != Name.normalize name) h' ∧
        ∀ n ∈ h'.node.namesOn level, Name.normalize n ≠ Name.normalize name) ∧
    ∀ name level names, h.node.namesAt level = .ok names →
      (¬∃ n ∈ names, Name.normalize n = Name.normalize name) →
      (∀ h', h.assignClass name level = .ok h' →
        h.Relisted level (names ++ [Name.normalize name]) h' ∧
        ∀ name', Name.normalize name' = Name.normalize name →
          h'.assignClass name' level = .ok h') ∧
      ∀ e, h.assignClass name level = .error e → ∃ l e', h.node.compiled.levels[level]? = some l ∧
        e = .hierarchy e' ∧ l.set h.world.files h.node.classListKey
          (Node.listOf (names ++ [Name.normalize name])) = .error e' := by
  refine ⟨Node.merged_listedClasses h.node, fun name level h' ha => ?_,
    fun name level names hn hout => ⟨fun h' ha => ?_, fun e ha => ?_⟩⟩
  · obtain ⟨names, hn, -⟩ := bind_eq_ok.mp ha
    obtain ⟨l, hl⟩ := exists_level_of_namesAt hn
    rcases removeClass_relists hl hn ha with ⟨hfalse, -⟩ | ⟨-, -, hr, -⟩
    · exact absurd hfalse nofun
    · have hlisted := hr.relisted hl
      refine ⟨names, hn, hlisted, fun n hin => ?_⟩
      rw [Node.namesOn_of_namesAt hlisted.list] at hin
      simpa using (List.mem_filter.mp hin).2
  · obtain ⟨l, hl⟩ := exists_level_of_namesAt hn
    rcases assignClass_relists hl hn ha with ⟨hin, -⟩ | ⟨-, hr, -⟩
    · exact absurd hin hout
    · have hvalue : some (Node.listOf (names ++ [Name.normalize name])) =
          listed? (names ++ [Name.normalize name]) := by
        simp [listed?]
      have hlisted := (hvalue ▸ hr).relisted hl
      refine ⟨hlisted, fun name' hname => assignClass_of_named hlisted.list ?_⟩
      exact ⟨_, List.mem_append_right _ List.mem_cons_self, by rw [Name.normalize_normalize, hname]⟩
  · obtain ⟨l, hl⟩ := exists_level_of_namesAt hn
    obtain ⟨e', he, hset⟩ := error_of_assignClass hl hn hout ha
    exact ⟨l, e', hl, he, hset⟩

/-- A class comes to an empty list and goes again, each time under another form of its name. -/
theorem class_lists_merge_web : ∃ h₁ h₂, layered.assignClass "::Web" 1 = .ok h₁ ∧
    h₁.removeClass "WEB" 1 = .ok (true, h₂) ∧ layered.Relisted 1 ["web"] h₁ ∧
    h₁.assignClass "Web" 1 = .ok h₁ ∧ h₁.Relisted 1 [] h₂ ∧
    h₁.node.Merged h₁.node.includedClasses.1 := by
  have hrun : ((layered.assignClass "::Web" 1).bind fun h₁ => h₁.removeClass "WEB" 1).toOption.map
      (·.1) = some true := by decide +kernel
  have hweb : [Name.normalize "::Web"] = ["web"] := by decide +kernel
  obtain ⟨-, -, hassign⟩ := class_lists_merge layered
  cases hfirst : layered.assignClass "::Web" 1 with
  | error e =>
    rw [hfirst] at hrun
    exact absurd hrun nofun
  | ok h₁ =>
    obtain ⟨hlisted, hagain⟩ := (hassign "::Web" 1 [] rfl (by simp)).1 h₁ hfirst
    obtain ⟨hmerged, hremove, -⟩ := class_lists_merge h₁
    rw [hfirst] at hrun
    change (h₁.removeClass "WEB" 1).toOption.map (·.1) = some true at hrun
    cases hthen : h₁.removeClass "WEB" 1 with
    | error e =>
      rw [hthen] at hrun
      exact absurd hrun nofun
    | ok r =>
      obtain ⟨found, h₂⟩ := r
      rw [hthen] at hrun
      obtain rfl : found = true := Option.some.inj hrun
      obtain ⟨names, hn, hremoved, -⟩ := hremove "WEB" 1 h₂ hthen
      obtain rfl : ["web"] = names :=
        hweb ▸ Except.ok.inj (hlisted.list.symm.trans hn)
      have hgone : (["web"].filter fun n => Name.normalize n != Name.normalize "WEB") = [] := by
        decide +kernel
      refine ⟨h₁, h₂, rfl, hthen, hweb ▸ hlisted, hagain "Web" (by decide +kernel), ?_, hmerged⟩
      exact hgone ▸ hremoved

/-- The second level names one class of its own, and the first one its classes in several forms. -/
example : let lists (names : List String) : Option DataFile :=
      some ((DataFile.empty "f").set "classes" (Node.listOf names))
    let node := { Fleet.newcomer "n0" with
      compiled := ⟨[⟨Fleet.commonLevel, "a", none, lists ["Web", "::base", "web"]⟩,
        ⟨Fleet.commonLevel, "b", none, lists ["ntp", "BASE"]⟩], []⟩ }
    node.includedClasses.1 = [("web", 0), ("base", 0), ("ntp", 1)] := by decide +kernel

end Host
end Cascade
