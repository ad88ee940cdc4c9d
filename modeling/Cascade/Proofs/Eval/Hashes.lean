import Cascade.Proofs.Eval.Comparison
import Cascade.Proofs.Eval.Protocol
import Cascade.Proofs.Form
/-!
Building a hash, reading it and asking for its keys. A hash is built and read by the text of its keys:
under a key it has what the last entry with a key of that text gave it. `in` asks whether a key of the
hash equals a value, which a string does up to the case of its ASCII letters; so it finds the strings a
hash was built from, and other spellings of them, under which there may be nothing to read.
-/
namespace Cascade

namespace Table

variable {κ α : Type} [DecidableEq κ] {t : Table κ α} {key : κ} {v : α}

/-- The first entry of a key counts. -/
theorem get?_eq_some_iff : get? t key = some v ↔
    ∃ before after, t = before ++ (key, v) :: after ∧ key ∉ keys before := by
  constructor
  · intro h
    induction t with
    | nil => exact absurd h (by simp)
    | cons e t ih =>
      obtain ⟨k, w⟩ := e
      rw [get?_cons] at h
      split at h
      next hk =>
        subst hk
        obtain rfl := Option.some.inj h
        exact ⟨[], t, rfl, List.not_mem_nil⟩
      next hk =>
        obtain ⟨before, after, rfl, hnot⟩ := ih h
        refine ⟨(k, w) :: before, after, rfl, ?_⟩
        simp only [keys, List.map_cons, List.mem_cons, not_or]
        exact ⟨Ne.symm hk, hnot⟩
  · rintro ⟨before, after, rfl, hnot⟩
    rw [get?_append, get?_eq_none_iff.mpr hnot, get?_cons, if_pos rfl]
    rfl

/-- Of a list of entries the last one of a key counts. -/
theorem get?_ofList_eq_some_iff {entries : List (κ × α)} : get? (ofList entries) key = some v ↔
    ∃ before after, entries = before ++ (key, v) :: after ∧ key ∉ keys after := by
  rw [ofList, get?_merge, get?_nil, Option.or_none, get?_eq_some_iff]
  constructor
  · rintro ⟨before, after, he, hnot⟩
    refine ⟨after.reverse, before.reverse, ?_, by simpa [keys] using hnot⟩
    rw [← List.reverse_inj, he]
    simp
  · rintro ⟨before, after, rfl, hnot⟩
    exact ⟨after.reverse, before.reverse, by simp, by simpa [keys] using hnot⟩

theorem mem_keys_ofList {entries : List (κ × α)} : key ∈ keys (ofList entries) ↔ key ∈ keys entries := by
  rw [← isSome_get?_iff, ofList, get?_merge, get?_nil, Option.or_none, isSome_get?_iff]
  simp [keys]

end Table

variable {η : Type} {env : Env η} {m m' : Machine η} {es : List (Expr × Expr)}
  {ps : List (Value × Value)}

/-- The entries of a hash expression evaluate to these keys and values, one after the other. -/
inductive EntriesTo (env : Env η) :
    Machine η → List (Expr × Expr) → List (Value × Value) → Machine η → Prop
  | nil (m : Machine η) : EntriesTo env m [] [] m
  | cons {m m₁ m₂ m₃ : Machine η} {key value : Expr} {k v : Value} {es : List (Expr × Expr)}
      {ps : List (Value × Value)} : (eval env key).run m = (.ok k, m₁) →
      (eval env value).run m₁ = (.ok v, m₂) → EntriesTo env m₂ es ps m₃ →
      EntriesTo env m ((key, value) :: es) ((k, v) :: ps) m₃

/-- The hash that keys and values make. -/
def hashOf (ps : List (Value × Value)) : Table String Value :=
  Table.ofList (ps.map fun p => (p.1.display, p.2))

theorem run_evalEntries (h : EntriesTo env m es ps m') (done : Table String Value) :
    (evalEntries env done es).run m =
      (.ok (Table.merge done (ps.map fun p => (p.1.display, p.2))), m') := by
  induction h generalizing done with
  | nil m => rfl
  | cons hkey hvalue _ ih =>
    rw [evalEntries, run_bind, hkey]
    dsimp only
    rw [run_bind, hvalue]
    exact ih _

theorem run_hash {id : Nat} (hcell : m.cell env.copy id = .unresolved)
    (h : EntriesTo env (m.setCell env.copy id .resolving) es ps m') :
    (eval env (.node id (.hash es))).run m = (.ok (.hash (hashOf ps)),
      m'.setCell env.copy id (.resolved (.hash (hashOf ps)))) := by
  have hkind (node : NodeRef) : (evalKind env node (.hash es)).run
      (m.setCell env.copy id .resolving) = (.ok (.hash (hashOf ps)), m') := by
    rw [evalKind, run_bind, run_evalEntries h]
    rfl
  rw [eval, run_memo_unresolved hcell, hkind]
  rfl

namespace Value

variable {t : Table String Value} {k v : Value}

theorem access_hash (t : Table String Value) (k : Value) :
    access (hash t) [k] = .ok ((t.get? k.display).getD undef) := rfl

/-- `in` asks for a key that equals the value. -/
theorem holds_in_hash_iff : Holds .in k (hash t) ↔ ∃ key ∈ t.keys, Holds .eq (string key) k := by
  have hrun : binary .in k (hash t) = .ok (bool (t.any fun e => (string e.1).equal k)) := rfl
  rw [Holds, hrun]
  simp only [Except.ok.injEq, bool.injEq, List.any_eq_true, Table.keys, List.mem_map, holds_eq_iff]
  constructor
  · rintro ⟨e, he, h⟩
    exact ⟨e.1, ⟨e, he, rfl⟩, h⟩
  · rintro ⟨_, ⟨e, he, rfl⟩, h⟩
    exact ⟨e, he, h⟩

/-- What equals a key has its text, up to the case of ASCII letters. -/
theorem foldCase_of_holds_eq {key : String} (h : Holds .eq (string key) k) :
    Name.foldCase key = Name.foldCase k.display := by
  cases k with
  | string s => exact holds_eq_string_iff.mp h
  | _ => exact absurd (holds_eq_iff.mp h) (by simp [equal, same])

theorem access_hash_of_mem (hn : t.keys.Nodup) (h : (k.display, v) ∈ t) :
    access (hash t) [k] = .ok v := by
  rw [access_hash, Table.get?_of_mem hn h]
  rfl

theorem nodup_keys_hashOf (ps : List (Value × Value)) : (hashOf ps).keys.Nodup :=
  Table.nodup_keys_merge List.nodup_nil

/-- Under each of its keys a hash has what the last of the keys with that text was given with. -/
theorem access_hashOf {p : Value × Value} (hp : p ∈ ps) :
    ∃ before k v after, ps = before ++ (k, v) :: after ∧ k.display = p.1.display ∧
      (∀ q ∈ after, q.1.display ≠ p.1.display) ∧ access (hash (hashOf ps)) [p.1] = .ok v := by
  have hkey : p.1.display ∈ (hashOf ps).keys := by
    rw [hashOf, Table.mem_keys_ofList]
    exact List.mem_map.mpr ⟨_, List.mem_map_of_mem hp, rfl⟩
  obtain ⟨v, hv⟩ := Option.isSome_iff_exists.mp (Table.isSome_get?_iff.mpr hkey)
  obtain ⟨before, after, hps, hnot⟩ := Table.get?_ofList_eq_some_iff.mp hv
  obtain ⟨before, rest, rfl, rfl, hrest⟩ := List.map_eq_append_iff.mp hps
  obtain ⟨⟨k, w⟩, after, rfl, hkv, rfl⟩ := List.map_eq_cons_iff.mp hrest
  obtain ⟨hk, rfl⟩ := Prod.mk.inj hkv
  refine ⟨before, k, w, after, rfl, hk, fun q hq he => hnot ?_, ?_⟩
  · exact List.mem_map.mpr ⟨_, List.mem_map_of_mem hq, he⟩
  · rw [access_hash, hv]
    rfl

theorem holds_in_hashOf {s : String} {v : Value} (hp : (string s, v) ∈ ps) :
    Holds .in (string s) (hash (hashOf ps)) := by
  refine holds_in_hash_iff.mpr ⟨s, ?_, holds_eq_string_iff.mpr rfl⟩
  rw [hashOf, Table.mem_keys_ofList]
  exact List.mem_map.mpr ⟨_, List.mem_map_of_mem hp, rfl⟩

/-- A hash expression evaluates to a hash that gives for each of its keys the value of the last entry
whose key has the same text, and in which every string among its keys is found. What is found in it has
the text of a key up to the case of ASCII letters. Under that key the hash has the value of an entry, as
it has under every value whose text is a key. -/
theorem hash_keys_found {id : Nat} (hcell : m.cell env.copy id = .unresolved)
    (h : EntriesTo env (m.setCell env.copy id .resolving) es ps m') :
    ∃ t : Table String Value, (eval env (.node id (.hash es))).run m =
        (.ok (hash t), m'.setCell env.copy id (.resolved (hash t))) ∧
      (∀ p ∈ ps, ∃ before k v after, ps = before ++ (k, v) :: after ∧ k.display = p.1.display ∧
        (∀ q ∈ after, q.1.display ≠ p.1.display) ∧ access (hash t) [p.1] = .ok v) ∧
      (∀ s v, (string s, v) ∈ ps → Holds .in (string s) (hash t)) ∧
      ∀ k, Holds .in k (hash t) → ∃ key v, (key, v) ∈ t ∧
        Name.foldCase key = Name.foldCase k.display ∧ access (hash t) [string key] = .ok v ∧
        (k.display ∈ t.keys → ∃ e ∈ t, access (hash t) [k] = .ok e.2) := by
  refine ⟨hashOf ps, run_hash hcell h, fun _ => access_hashOf, fun _ _ => holds_in_hashOf,
    fun k hk => ?_⟩
  have hn := nodup_keys_hashOf ps
  obtain ⟨key, hkey, heq⟩ := holds_in_hash_iff.mp hk
  obtain ⟨⟨key, v⟩, he, rfl⟩ := List.mem_map.mp hkey
  refine ⟨key, v, he, foldCase_of_holds_eq heq, access_hash_of_mem hn he, fun hspelled => ?_⟩
  obtain ⟨⟨key', v'⟩, he', hkey'⟩ := List.mem_map.mp hspelled
  subst hkey'
  exact ⟨_, he', access_hash_of_mem hn he'⟩

def literal (id : Nat) (v : Value) : Expr := .node id (.literal v)

/-- Where literals can be evaluated. -/
def bareEnv : Env Unit := ⟨Call.nobody, .frame, 0⟩

/-- `{1 => 'x', '1' => 'y', 'A' => 2}` -/
def mixedEntries : List (Expr × Expr) :=
  [(literal 1 (integer 1), literal 2 (string "x")), (literal 3 (string "1"), literal 4 (string "y")),
    (literal 5 (string "A"), literal 6 (integer 2))]

theorem hash_keys_found_mixed :
    let ps := [(integer 1, string "x"), (string "1", string "y"), (string "A", integer 2)]
    Call.blank.cell 0 0 = .unresolved ∧
      ∃ t m', EntriesTo bareEnv (Call.blank.setCell 0 0 .resolving) mixedEntries ps m' ∧
        (eval bareEnv (.node 0 (.hash mixedEntries))).run Call.blank =
          (.ok (hash t), m'.setCell 0 0 (.resolved (hash t))) ∧
        (∃ before k v after, ps = before ++ (k, v) :: after ∧ k.display = "1" ∧
          (∀ q ∈ after, q.1.display ≠ "1") ∧ access (hash t) [integer 1] = .ok v) ∧
        Holds .in (string "A") (hash t) ∧
        ∃ key v, (key, v) ∈ t ∧ Name.foldCase key = Name.foldCase "A" ∧
          access (hash t) [string key] = .ok v := by
  intro ps
  obtain ⟨m', h⟩ : ∃ m', EntriesTo bareEnv (Call.blank.setCell 0 0 .resolving) mixedEntries ps m' :=
    ⟨_, .cons rfl rfl (.cons rfl rfl (.cons rfl rfl (.nil _)))⟩
  have hcell : Call.blank.cell bareEnv.copy 0 = .unresolved := rfl
  obtain ⟨t, hrun, hget, hfound, hback⟩ := hash_keys_found hcell h
  have hin : Holds .in (string "A") (hash t) := hfound "A" (integer 2) (by simp [ps])
  obtain ⟨key, v, he, hfold, haccess, -⟩ := hback _ hin
  exact ⟨hcell, t, m', h, hrun, hget (integer 1, string "x") (by simp [ps]), hin, key, v, he, hfold,
    haccess⟩

/-- In `{1 => 'x', 'a' => 2}` the string `A` is found, but there is nothing to read under it; of the
number it is the other way round. -/
theorem found_not_read :
    let t : Table String Value := [("1", string "x"), ("a", integer 2)]
    let es := [(literal 1 (integer 1), literal 2 (string "x")),
      (literal 3 (string "a"), literal 4 (integer 2))]
    (∃ m', (eval bareEnv (.node 0 (.hash es))).run Call.blank = (.ok (hash t), m')) ∧
      Holds .in (string "A") (hash t) ∧ (¬∃ e ∈ t, access (hash t) [string "A"] = .ok e.2) ∧
      ¬Holds .in (integer 1) (hash t) ∧ access (hash t) [integer 1] = .ok (string "x") := by
  intro t es
  have hread : access (hash t) [string "A"] = .ok undef := rfl
  refine ⟨⟨_, rfl⟩, rfl, ?_, ?_, rfl⟩
  · rintro ⟨e, he, h⟩
    rw [hread] at h
    simp only [t, List.mem_cons, List.not_mem_nil, or_false] at he
    rcases he with rfl | rfl <;> exact absurd (Except.ok.inj h) nofun
  · intro h
    obtain ⟨key, -, heq⟩ := holds_in_hash_iff.mp h
    exact absurd (holds_eq_iff.mp heq) (by simp [equal, same])

end Value

end Cascade
