import Cascade.Expr.Decode
import Mathlib.Data.List.Basic
import Mathlib.Order.Nat
/-!
Which documents are expressions. A grammar says, for each node, whether it has one of the shapes
that its tag takes and which of its parts are expressions again. It comes in two readings: to the
letter, and with the leniencies of the decoder, which overlooks arguments after those that a tag
takes and the operations of a resource that are not a list.

A node determines its parts, each of which is lower than the node. What has a shape in the lenient
reading only has a surplus.
-/
namespace Cascade

namespace Grammar

open Decode (nameOf? member?)

/-- A `#` map with these entries. -/
def IsMap (j : Json) (entries : List (String × Json)) : Prop :=
  j.get? "#" = some (.array (entries.flatMap fun e => [.string e.1, e.2]))

/-- A list of statements, or a single one. -/
def statementsOf : Json → List Json
  | .array items => items
  | j => [j]

/-- The statements under a key of a map. -/
def statementsIn (m : List (String × Json)) (key : String) : List Json :=
  ((member? m key).map statementsOf).getD []

/-- The list under a key; there may be none. -/
def ListIn (m : List (String × Json)) (key : String) (items : List Json) : Prop :=
  member? m key = some (.array items) ∨ member? m key = none ∧ items = []

variable {m : List (String × Json)} {key : String} {items : List Json} {j : Json}

theorem listIn_of_some (h : member? m key = some (.array items)) {items' : List Json} :
    ListIn m key items' ↔ items' = items := by
  simp [ListIn, h, eq_comm]

theorem listIn_of_none (h : member? m key = none) : ListIn m key items ↔ items = [] := by
  simp [ListIn, h]

theorem not_listIn (h : member? m key = some j) (hj : ∀ items, j ≠ .array items) :
    ¬ ListIn m key items := by
  simp [ListIn, h, hj]

/-- Something that is not a list under a key. -/
def NoListIn (m : List (String × Json)) (key : String) : Prop :=
  ∃ j, member? m key = some j ∧ ∀ items, j ≠ .array items

/-- Without a list there are no items, whether something else is there or not. -/
theorem listIn_or_noListIn (h : ∀ items, member? m key ≠ some (.array items)) :
    ListIn m key items ∨ NoListIn m key ∧ items = [] ↔ items = [] := by
  rcases hm : member? m key with _ | j
  · have hno : ¬ NoListIn m key := by simp [NoListIn, hm]
    simp [listIn_of_none hm, hno]
  · have hj : ∀ items, j ≠ .array items := fun items hj => h items (hj ▸ hm)
    have hno : NoListIn m key := ⟨j, hm, hj⟩
    simp [not_listIn hm hj, hno]

/-- One after the other, with the parts of all of them. -/
def Each {α : Type} (R : α → List Json → Prop) : List α → List Json → Prop
  | [], parts => parts = []
  | a :: as, parts => ∃ ps qs, R a ps ∧ Each R as qs ∧ parts = ps ++ qs

/-- `key => value` -/
def Association (j : Json) (parts : List Json) : Prop :=
  ∃ key value, j.get? "^" = some (.array [.string "=>", key, value]) ∧ parts = [key, value]

/-- `name => value` or `name +> value` -/
def Attribute (j : Json) (parts : List Json) : Prop :=
  ∃ op name value, j.get? "^" = some (.array [.string op, name, value]) ∧
    (op = "=>" ∨ op = "+>") ∧ (nameOf? name).isSome ∧ parts = [value]

def Parameter (entry : String × Json) (parts : List Json) : Prop :=
  ∃ spec, IsMap entry.2 spec ∧ parts = (member? spec "type").toList ++ (member? spec "value").toList

def Arm (j : Json) (parts : List Json) : Prop :=
  ∃ m, IsMap j m ∧ parts = statementsIn m "when" ++ statementsIn m "then"

/-- What the lenient reading overlooks is allowed if `lax`. -/
def Body (lax : Prop) (j : Json) (parts : List Json) : Prop :=
  ∃ m title ops attributes, IsMap j m ∧ member? m "title" = some title ∧
    (ListIn m "ops" ops ∨ lax ∧ NoListIn m "ops" ∧ ops = []) ∧ Each Attribute ops attributes ∧
      parts = title :: attributes

/-- The nodes that take a map. -/
inductive MapForm
  | heredoc
  | call
  | conditional
  | resource
  | definition

/-- The members that a map needs, and its parts. -/
def MapForm.Takes (lax : Prop) (m : List (String × Json)) (parts : List Json) : MapForm → Prop
  | heredoc => ∃ text, member? m "text" = some text ∧ parts = [text]
  | call => ∃ functor, member? m "functor" = some functor ∧ (nameOf? functor).isSome ∧
      ListIn m "args" parts
  | conditional => ∃ test, member? m "test" = some test ∧
      parts = test :: (statementsIn m "then" ++ statementsIn m "else")
  | resource => ∃ type bodies ps, member? m "type" = some type ∧ ListIn m "bodies" bodies ∧
      Each (Body lax) bodies ps ∧ parts = type :: ps
  | definition => ((member? m "name").bind nameOf?).isSome ∧ ∃ declared ps,
      (member? m "params" = none ∧ declared = [] ∨
        ∃ j, member? m "params" = some j ∧ IsMap j declared) ∧
      Each Parameter declared ps ∧
        parts = ps ++ (statementsIn m "body" ++ (member? m "returns").toList)

/-- What a tag takes for arguments. -/
inductive Form
  /-- Any number of expressions. -/
  | every
  | entries
  | text
  | one
  | two
  | oneOrTwo
  | oneOrMore
  | atMostOne
  | nothing
  | map (form : MapForm)
  /-- A test and a list of cases. -/
  | arms
  /-- A test and a list of entries. -/
  | choices

namespace Form

/-- The tags that are known. -/
def table : Table String Form :=
  [("array", every), ("block", every), ("concat", every), ("hash", entries), ("$", text),
    ("qn", text), ("qr", text), ("regexp", text), ("str", one), ("paren", one), ("!", one),
    ("-", oneOrTwo), ("=", two), ("==", two), ("!=", two), ("<", two), ("<=", two), (">", two),
    (">=", two), ("+", two), ("*", two), ("/", two), ("%", two), ("and", two), ("or", two),
    ("in", two), ("access", oneOrMore), ("return", atMostOne), ("default", nothing),
    ("nop", nothing), ("heredoc", map .heredoc), ("call", map .call), ("invoke", map .call),
    ("if", map .conditional), ("unless", map .conditional), ("resource", map .resource),
    ("class", map .definition), ("define", map .definition), ("function", map .definition),
    ("case", arms), ("?", choices)]

def Takes (lax : Prop) (args parts : List Json) : Form → Prop
  | every => parts = args
  | entries => Each Association args parts
  | text => ∃ s more, args = .string s :: more ∧ (lax ∨ more = []) ∧ parts = []
  | one => args.length = 1 ∧ parts = args
  | two => args.length = 2 ∧ parts = args
  | oneOrTwo => (args.length = 1 ∨ args.length = 2) ∧ parts = args
  | oneOrMore => args ≠ [] ∧ parts = args
  | atMostOne => (lax ∨ args.length ≤ 1) ∧ parts = args.take 1
  | nothing => (lax ∨ args = []) ∧ parts = []
  | map form => ∃ arg more m, args = arg :: more ∧ (lax ∨ more = []) ∧ IsMap arg m ∧
      form.Takes lax m parts
  | arms => ∃ test options ps, args = [test, .array options] ∧ Each Arm options ps ∧
      parts = test :: ps
  | choices => ∃ test options ps, args = [test, .array options] ∧ Each Association options ps ∧
      parts = test :: ps

end Form

/-- The arguments of a tag that nobody knows are not looked at. -/
def CallTakes (lax : Prop) (tag : String) (args parts : List Json) : Prop :=
  match Form.table.get? tag with
  | some form => form.Takes lax args parts
  | none => parts = []

/-- The shape of a node, with the parts that are expressions. -/
def Shape (lax : Prop) : Json → List Json → Prop
  | .array items, parts => parts = items
  | .object [("^", call)], parts =>
    ∃ tag args, call = .array (.string tag :: args) ∧ CallTakes lax tag args parts
  | .object [("#", flat)], parts =>
    ∃ m, IsMap (.object [("#", flat)]) m ∧ parts = m.map (·.2)
  | _, parts => parts = []

theorem callTakes_some {lax : Prop} {tag : String} {args parts : List Json} {form : Form}
    (h : Form.table.get? tag = some form) :
    CallTakes lax tag args parts ↔ form.Takes lax args parts := by
  rw [CallTakes, h]

theorem callTakes_none {lax : Prop} {tag : String} {args parts : List Json}
    (h : Form.table.get? tag = none) : CallTakes lax tag args parts ↔ parts = [] := by
  rw [CallTakes, h]

/-- What is no list, no call and no map has no parts. -/
theorem shape_literal {lax : Prop} {parts : List Json} (hlist : ∀ items, j ≠ .array items)
    (hcall : ∀ call, j ≠ .object [("^", call)]) (hmap : ∀ flat, j ≠ .object [("#", flat)]) :
    Shape lax j parts ↔ parts = [] := by
  unfold Shape
  split
  · exact absurd rfl (hlist _)
  · exact absurd rfl (hcall _)
  · exact absurd rfl (hmap _)
  · rfl

/-- The node has a shape of the grammar, and so has every part of it. -/
inductive Formed (lax : Prop) : Json → Prop
  | node {j : Json} {parts : List Json} : Shape lax j parts → (∀ p ∈ parts, Formed lax p) →
      Formed lax j

/-- Somewhere in a document, where an expression stands. -/
inductive Occurs (p : Json) : Json → Prop
  | here : Occurs p p
  | inside {j q : Json} {parts : List Json} : Shape True j parts → q ∈ parts → Occurs p q →
      Occurs p j

/-- A resource with operations that are not a list. -/
def MapForm.Surplus (m : List (String × Json)) : MapForm → Prop
  | resource => ∃ bodies, ListIn m "bodies" bodies ∧
      ∃ j ∈ bodies, ∃ body, IsMap j body ∧ NoListIn body "ops"
  | _ => False

/-- More arguments than a tag takes, or something in them that counts for nothing. -/
def Form.Surplus (args : List Json) : Form → Prop
  | text => 1 < args.length
  | atMostOne => 1 < args.length
  | nothing => args ≠ []
  | map form => 1 < args.length ∨ ∃ arg m, args = [arg] ∧ IsMap arg m ∧ form.Surplus m
  | _ => False

/-- A call with something that the decoder overlooks. -/
def Surplus (j : Json) : Prop :=
  ∃ tag args form, j = .object [("^", .array (.string tag :: args))] ∧
    Form.table.get? tag = some form ∧ form.Surplus args

end Grammar

namespace Decode

theorem pairUp_eq_ok {tag : String} {flat : List Json} (heven : flat.length % 2 = 0)
    {m : List (String × Json)} :
    pairUp tag flat = .ok m ↔ flat = m.flatMap fun e => [.string e.1, e.2] := by
  fun_induction pairUp tag flat generalizing m with
  | case1 key v rest ih =>
    simp only [List.length_cons] at heven
    have ih := @ih (by omega)
    constructor
    · intro h
      rcases hrest : pairUp tag rest with err | entries
      · rw [hrest] at h
        exact absurd h nofun
      · rw [hrest] at h
        obtain rfl : (key, v) :: entries = m := Except.ok.inj h
        rw [ih.mp hrest, List.flatMap_cons]
        rfl
    · intro h
      cases m with
      | nil => exact absurd h (List.cons_ne_nil _ _)
      | cons e entries =>
        obtain ⟨hkey, hv, hrest⟩ : key = e.1 ∧ v = e.2 ∧ _ := by simpa using h
        rw [ih.mpr hrest, hkey, hv]
        rfl
  | case2 other v rest hother =>
    refine ⟨nofun, fun h => ?_⟩
    cases m with
    | nil => exact absurd h (List.cons_ne_nil _ _)
    | cons e entries => exact absurd (List.cons.inj h).1 (hother e.1)
  | case3 flat _ hshort =>
    cases m with
    | nil =>
      refine ⟨fun _ => ?_, fun _ => rfl⟩
      match flat, heven, hshort with
      | [], _, _ => rfl
      | [_], heven, _ => exact absurd heven (by simp)
      | a :: b :: rest, _, hshort => exact (hshort a b rest rfl).elim
    | cons e entries => exact ⟨nofun, fun h => (hshort _ _ _ h).elim⟩

theorem entriesOf_eq_ok {tag : String} {j : Json} {m : List (String × Json)} :
    entriesOf tag j = .ok m ↔ Grammar.IsMap j m := by
  have heven : (m.flatMap fun e => [Json.string e.1, e.2]).length % 2 = 0 := by
    simp [List.length_flatMap]
  unfold entriesOf Grammar.IsMap
  split
  · rename_i flat hflat
    rw [hflat, Option.some_inj, Json.array.injEq]
    split
    · rename_i hodd
      exact ⟨nofun, fun h => absurd (h ▸ heven) hodd⟩
    · rename_i hflat'
      exact pairUp_eq_ok (by omega)
  · rename_i hne
    exact ⟨nofun, fun h => absurd h (hne _)⟩

end Decode

namespace Grammar

open Decode (member?)

theorem height_lt_of_mem {items : List Json} {p : Json} (h : p ∈ items) :
    p.height < (Json.array items).height := by
  induction items with
  | nil => exact absurd h List.not_mem_nil
  | cons j js ih =>
    rw [Json.height, Json.heightItems]
    rcases List.mem_cons.mp h with rfl | h
    · omega
    · have hjs := ih h
      rw [Json.height] at hjs
      omega

theorem height_lt_of_get? {j v : Json} {key : String} (h : j.get? key = some v) :
    v.height < j.height := by
  cases j with
  | object members =>
    rw [Json.get?] at h
    induction members with
    | nil => simp at h
    | cons member members ih =>
      rw [Json.height, Json.heightMembers]
      rw [Table.get?_cons] at h
      split at h
      · obtain rfl := Option.some_inj.mp h
        omega
      · have hrest := ih h
        rw [Json.height] at hrest
        omega
  | null | bool _ | number _ | string _ | array _ => simp [Json.get?] at h

/-- Every part is lower than the whole. -/
def Lower (j : Json) (parts : List Json) : Prop := ∀ p ∈ parts, p.height < j.height

theorem Lower.trans {i j : Json} {parts : List Json} (h : Lower i parts)
    (hij : i.height ≤ j.height) : Lower j parts :=
  fun p hp => (h p hp).trans_le hij

theorem Lower.append {j : Json} {ps qs : List Json} (hps : Lower j ps) (hqs : Lower j qs) :
    Lower j (ps ++ qs) :=
  fun p hp => (List.mem_append.mp hp).elim (hps p) (hqs p)

theorem Lower.cons {p j : Json} {ps : List Json} (hp : p.height < j.height) (hps : Lower j ps) :
    Lower j (p :: ps) :=
  List.forall_mem_cons.mpr ⟨hp, hps⟩

theorem lower_array (items : List Json) : Lower (.array items) items :=
  fun _ => height_lt_of_mem

theorem Each.lower {α : Type} {R : α → List Json → Prop} {j : Json} {as : List α}
    {parts : List Json} (hR : ∀ a ∈ as, ∀ ps, R a ps → Lower j ps) (h : Each R as parts) :
    Lower j parts := by
  induction as generalizing parts with
  | nil =>
    obtain rfl := h
    exact nofun
  | cons a as ih =>
    obtain ⟨ps, qs, hps, hqs, rfl⟩ := h
    exact (hR a List.mem_cons_self ps hps).append
      (ih (fun a ha => hR a (List.mem_cons_of_mem _ ha)) hqs)

theorem Each.lower_tested {R : Json → List Json → Prop} {test : Json} {options parts : List Json}
    (h : Each R options parts) (hR : ∀ j ps, R j ps → Lower j ps) :
    Lower (.array [test, .array options]) (test :: parts) := by
  have hoptions : (Json.array options).height < (Json.array [test, .array options]).height :=
    height_lt_of_mem (List.mem_cons_of_mem _ List.mem_cons_self)
  refine .cons (height_lt_of_mem List.mem_cons_self) (h.lower fun j hj ps hps => ?_)
  exact (hR j ps hps).trans ((height_lt_of_mem hj).trans hoptions).le

namespace IsMap

variable {j : Json} {m : List (String × Json)} (h : IsMap j m)

include h

theorem height_lt {e : String × Json} (he : e ∈ m) : e.2.height < j.height := by
  have hflat : e.2 ∈ m.flatMap fun e => [Json.string e.1, e.2] :=
    List.mem_flatMap.mpr ⟨e, he, by simp⟩
  exact (height_lt_of_mem hflat).trans (height_lt_of_get? h)

theorem height_member {key : String} {v : Json} (hv : member? m key = some v) :
    v.height < j.height := by
  obtain ⟨l₁, l₂, hm, -⟩ := List.lookup_eq_some_iff.mp hv
  exact h.height_lt (e := (key, v)) (by simp [hm])

theorem lower_toList (key : String) : Lower j (member? m key).toList := by
  intro p hp
  exact h.height_member (Option.mem_toList.mp hp)

theorem lower_statementsIn (key : String) : Lower j (statementsIn m key) := by
  rw [statementsIn]
  rcases hv : member? m key with _ | v
  · exact nofun
  · have hlt := h.height_member hv
    cases v with
    | array items => exact (lower_array items).trans hlt.le
    | null | bool _ | number _ | string _ | object _ => exact .cons hlt nofun

theorem lower_listIn {key : String} {items : List Json} (hitems : ListIn m key items) :
    Lower j items := by
  rcases hitems with hitems | ⟨-, rfl⟩
  · exact (lower_array items).trans (h.height_member hitems).le
  · exact nofun

end IsMap

theorem Association.lower {j : Json} {parts : List Json} (h : Association j parts) :
    Lower j parts := by
  obtain ⟨key, value, hj, rfl⟩ := h
  have hlower := (lower_array _).trans (height_lt_of_get? hj).le
  exact fun p hp => hlower p (List.mem_cons_of_mem _ hp)

theorem Attribute.lower {j : Json} {parts : List Json} (h : Attribute j parts) :
    Lower j parts := by
  obtain ⟨op, name, value, hj, -, -, rfl⟩ := h
  have hlower := (lower_array _).trans (height_lt_of_get? hj).le
  exact fun p hp => hlower p (List.mem_cons_of_mem _ (List.mem_cons_of_mem _ hp))

theorem Parameter.lower {e : String × Json} {parts : List Json} (h : Parameter e parts) :
    Lower e.2 parts := by
  obtain ⟨spec, hspec, rfl⟩ := h
  exact (hspec.lower_toList _).append (hspec.lower_toList _)

theorem Arm.lower {j : Json} {parts : List Json} (h : Arm j parts) : Lower j parts := by
  obtain ⟨m, hm, rfl⟩ := h
  exact (hm.lower_statementsIn _).append (hm.lower_statementsIn _)

theorem Body.lower {j : Json} {parts : List Json} (h : Body True j parts) : Lower j parts := by
  obtain ⟨m, title, ops, attributes, hm, htitle, hops, heach, rfl⟩ := h
  have hlower : Lower j ops := by
    rcases hops with hops | ⟨-, -, rfl⟩
    · exact hm.lower_listIn hops
    · exact nofun
  exact .cons (hm.height_member htitle)
    (heach.lower fun op hop ps hps => hps.lower.trans (hlower op hop).le)

theorem MapForm.lower {form : MapForm} {j : Json} {m : List (String × Json)} {parts : List Json}
    (hm : IsMap j m) (h : form.Takes True m parts) : Lower j parts := by
  cases form with
  | heredoc =>
    obtain ⟨text, htext, rfl⟩ := h
    exact .cons (hm.height_member htext) nofun
  | call =>
    obtain ⟨functor, -, -, hargs⟩ := h
    exact hm.lower_listIn hargs
  | conditional =>
    obtain ⟨test, htest, rfl⟩ := h
    exact .cons (hm.height_member htest)
      ((hm.lower_statementsIn _).append (hm.lower_statementsIn _))
  | resource =>
    obtain ⟨type, bodies, ps, htype, hbodies, heach, rfl⟩ := h
    exact .cons (hm.height_member htype) (heach.lower fun body hbody ps hps =>
      hps.lower.trans (hm.lower_listIn hbodies body hbody).le)
  | definition =>
    obtain ⟨-, declared, ps, hdeclared, heach, rfl⟩ := h
    have hlower : Lower j ps := by
      rcases hdeclared with ⟨-, rfl⟩ | ⟨params, hparams, hentries⟩
      · exact heach.lower nofun
      · exact heach.lower fun e he ps hps => hps.lower.trans
          ((hentries.height_lt he).trans (hm.height_member hparams)).le
    exact hlower.append ((hm.lower_statementsIn _).append (hm.lower_toList _))

theorem Form.lower {form : Form} {args parts : List Json} (h : form.Takes True args parts) :
    Lower (.array args) parts := by
  cases form with
  | every =>
    obtain rfl := h
    exact lower_array _
  | entries => exact Each.lower (fun a ha ps hps => hps.lower.trans (height_lt_of_mem ha).le) h
  | text =>
    obtain ⟨s, more, -, -, rfl⟩ := h
    exact nofun
  | one | two | oneOrTwo | oneOrMore =>
    obtain ⟨-, rfl⟩ := h
    exact lower_array _
  | atMostOne =>
    obtain ⟨-, rfl⟩ := h
    exact fun p hp => height_lt_of_mem (List.mem_of_mem_take hp)
  | nothing =>
    obtain ⟨-, rfl⟩ := h
    exact nofun
  | map form =>
    obtain ⟨arg, more, m, rfl, -, hm, h⟩ := h
    exact (MapForm.lower hm h).trans (height_lt_of_mem List.mem_cons_self).le
  | arms =>
    obtain ⟨test, options, ps, rfl, heach, rfl⟩ := h
    exact heach.lower_tested fun _ _ => Arm.lower
  | choices =>
    obtain ⟨test, options, ps, rfl, heach, rfl⟩ := h
    exact heach.lower_tested fun _ _ => Association.lower

theorem Shape.lower {j : Json} {parts : List Json} (h : Shape True j parts) : Lower j parts := by
  unfold Shape at h
  split at h
  · obtain rfl := h
    exact lower_array _
  · obtain ⟨tag, args, rfl, h⟩ := h
    have hargs : (Json.array args).height ≤ (Json.array (.string tag :: args)).height := by
      simp only [Json.height, Json.heightItems]
      omega
    have hcall : Json.get? (.object [("^", .array (.string tag :: args))]) "^" = some _ := rfl
    rcases hform : Form.table.get? tag with _ | form
    · obtain rfl := (callTakes_none hform).mp h
      exact nofun
    · exact (Form.lower ((callTakes_some hform).mp h)).trans
        (hargs.trans (height_lt_of_get? hcall).le)
  · obtain ⟨m, hm, rfl⟩ := h
    intro p hp
    obtain ⟨e, he, rfl⟩ := List.mem_map.mp hp
    exact hm.height_lt he
  · obtain rfl := h
    exact nofun

theorem height_pos (j : Json) : 0 < j.height := by
  cases j <;> simp [Json.height]

theorem Each.unique {α : Type} {R : α → List Json → Prop}
    (hR : ∀ a ps qs, R a ps → R a qs → ps = qs) {as : List α} {ps qs : List Json}
    (hps : Each R as ps) (hqs : Each R as qs) : ps = qs := by
  induction as generalizing ps qs with
  | nil => exact hps.trans hqs.symm
  | cons a as ih =>
    obtain ⟨ps₁, ps₂, h₁, h₂, rfl⟩ := hps
    obtain ⟨qs₁, qs₂, h₁', h₂', rfl⟩ := hqs
    rw [hR a _ _ h₁ h₁', ih h₂ h₂']

theorem IsMap.unique {j : Json} {m m' : List (String × Json)} (h : IsMap j m) (h' : IsMap j m') :
    m = m' :=
  Except.ok.inj ((Decode.entriesOf_eq_ok.mpr h : Decode.entriesOf "#" j = _).symm.trans
    (Decode.entriesOf_eq_ok.mpr h'))

theorem ListIn.unique {m : List (String × Json)} {key : String} {items items' : List Json}
    (h : ListIn m key items) (h' : ListIn m key items') : items = items' := by
  rcases h with h | ⟨h, rfl⟩
  · exact ((listIn_of_some h).mp h').symm
  · exact ((listIn_of_none h).mp h').symm

theorem ListIn.not_noListIn {m : List (String × Json)} {key : String} {items : List Json}
    (h : ListIn m key items) : ¬ NoListIn m key :=
  fun ⟨_, hj, hne⟩ => not_listIn hj hne h

theorem Association.unique (j : Json) (ps qs : List Json) (hps : Association j ps)
    (hqs : Association j qs) : ps = qs := by
  obtain ⟨key, value, hj, rfl⟩ := hps
  obtain ⟨key', value', hj', rfl⟩ := hqs
  simpa [hj] using hj'

theorem Attribute.unique (j : Json) (ps qs : List Json) (hps : Attribute j ps)
    (hqs : Attribute j qs) : ps = qs := by
  obtain ⟨op, name, value, hj, -, -, rfl⟩ := hps
  obtain ⟨op', name', value', hj', -, -, rfl⟩ := hqs
  obtain ⟨-, -, rfl⟩ : op = op' ∧ name = name' ∧ value = value' := by simpa [hj] using hj'
  rfl

theorem Parameter.unique (e : String × Json) (ps qs : List Json) (hps : Parameter e ps)
    (hqs : Parameter e qs) : ps = qs := by
  obtain ⟨spec, hspec, rfl⟩ := hps
  obtain ⟨spec', hspec', rfl⟩ := hqs
  rw [hspec.unique hspec']

theorem Arm.unique (j : Json) (ps qs : List Json) (hps : Arm j ps) (hqs : Arm j qs) : ps = qs := by
  obtain ⟨m, hm, rfl⟩ := hps
  obtain ⟨m', hm', rfl⟩ := hqs
  rw [hm.unique hm']

theorem Body.unique (j : Json) (ps qs : List Json) (hps : Body True j ps) (hqs : Body True j qs) :
    ps = qs := by
  obtain ⟨m, title, ops, attributes, hm, htitle, hops, heach, rfl⟩ := hps
  obtain ⟨m', title', ops', attributes', hm', htitle', hops', heach', rfl⟩ := hqs
  obtain rfl := hm.unique hm'
  obtain rfl : title = title' := Option.some_inj.mp (htitle.symm.trans htitle')
  have hsame : ops = ops' := by
    rcases hops with hops | ⟨-, hno, rfl⟩ <;> rcases hops' with hops' | ⟨-, hno', rfl⟩
    · exact hops.unique hops'
    · exact (hops.not_noListIn hno').elim
    · exact (hops'.not_noListIn hno).elim
    · rfl
  subst hsame
  rw [heach.unique Attribute.unique heach']

theorem MapForm.unique {form : MapForm} {m : List (String × Json)} {ps qs : List Json}
    (hps : form.Takes True m ps) (hqs : form.Takes True m qs) : ps = qs := by
  cases form with
  | heredoc =>
    obtain ⟨text, htext, rfl⟩ := hps
    obtain ⟨text', htext', rfl⟩ := hqs
    simpa [htext] using htext'
  | call => 
    obtain ⟨-, -, -, h⟩ := hps
    obtain ⟨-, -, -, h'⟩ := hqs
    exact h.unique h'
  | conditional =>
    obtain ⟨test, htest, rfl⟩ := hps
    obtain ⟨test', htest', rfl⟩ := hqs
    simpa [htest] using htest'
  | resource =>
    obtain ⟨type, bodies, ps, htype, hbodies, heach, rfl⟩ := hps
    obtain ⟨type', bodies', ps', htype', hbodies', heach', rfl⟩ := hqs
    obtain rfl : type = type' := Option.some_inj.mp (htype.symm.trans htype')
    obtain rfl := hbodies.unique hbodies'
    rw [heach.unique Body.unique heach']
  | definition =>
    obtain ⟨-, declared, ps, hdeclared, heach, rfl⟩ := hps
    obtain ⟨-, declared', ps', hdeclared', heach', rfl⟩ := hqs
    have hsame : declared = declared' := by
      rcases hdeclared with ⟨h, rfl⟩ | ⟨j, h, hmap⟩ <;>
        rcases hdeclared' with ⟨h', rfl⟩ | ⟨j', h', hmap'⟩
      · rfl
      · exact absurd (h.symm.trans h') nofun
      · exact absurd (h.symm.trans h') nofun
      · obtain rfl : j = j' := Option.some_inj.mp (h.symm.trans h')
        exact hmap.unique hmap'
    subst hsame
    rw [heach.unique Parameter.unique heach']

theorem Form.unique {form : Form} {args ps qs : List Json}
    (hps : form.Takes True args ps) (hqs : form.Takes True args qs) : ps = qs := by
  cases form with
  | every => exact hps.trans hqs.symm
  | entries => exact Each.unique Association.unique hps hqs
  | text =>
    obtain ⟨-, -, -, -, rfl⟩ := hps
    obtain ⟨-, -, -, -, rfl⟩ := hqs
    rfl
  | one | two | oneOrTwo | oneOrMore | atMostOne | nothing => exact hps.2.trans hqs.2.symm
  | map form =>
    obtain ⟨arg, more, m, hargs, -, hm, h⟩ := hps
    obtain ⟨arg', more', m', hargs', -, hm', h'⟩ := hqs
    obtain ⟨rfl, -⟩ := List.cons.inj (hargs.symm.trans hargs')
    obtain rfl := hm.unique hm'
    exact MapForm.unique h h'
  | arms =>
    obtain ⟨test, options, ps, hargs, heach, rfl⟩ := hps
    obtain ⟨test', options', ps', hargs', heach', rfl⟩ := hqs
    obtain ⟨rfl, rfl⟩ : test = test' ∧ options = options' := by simpa [hargs] using hargs'
    rw [heach.unique Arm.unique heach']
  | choices =>
    obtain ⟨test, options, ps, hargs, heach, rfl⟩ := hps
    obtain ⟨test', options', ps', hargs', heach', rfl⟩ := hqs
    obtain ⟨rfl, rfl⟩ : test = test' ∧ options = options' := by simpa [hargs] using hargs'
    rw [heach.unique Association.unique heach']

theorem Shape.unique {j : Json} {ps qs : List Json} (hps : Shape True j ps)
    (hqs : Shape True j qs) : ps = qs := by
  unfold Shape at hps
  split at hps
  · exact hps.trans hqs.symm
  · obtain ⟨tag, args, rfl, h⟩ := hps
    obtain ⟨tag', args', hcall, h'⟩ := hqs
    obtain ⟨rfl, rfl⟩ : tag = tag' ∧ args = args' := by simpa using hcall
    rcases hform : Form.table.get? tag with _ | form
    · exact ((callTakes_none hform).mp h).trans ((callTakes_none hform).mp h').symm
    · exact Form.unique ((callTakes_some hform).mp h) ((callTakes_some hform).mp h')
  · obtain ⟨m, hm, rfl⟩ := hps
    obtain ⟨m', hm', rfl⟩ := hqs
    rw [hm.unique hm']
  · rename_i hlist hcall hmap
    exact hps.trans ((shape_literal hlist hcall hmap).mp hqs).symm

theorem body_iff (j : Json) (parts : List Json) : Body False j parts ↔
    Body True j parts ∧ ¬ ∃ body, IsMap j body ∧ NoListIn body "ops" := by
  constructor
  · rintro ⟨m, title, ops, attributes, hm, htitle, hops | ⟨h, -⟩, heach⟩
    · refine ⟨⟨m, title, ops, attributes, hm, htitle, .inl hops, heach⟩, ?_⟩
      rintro ⟨m', hm', hno⟩
      exact hops.not_noListIn (hm.unique hm' ▸ hno)
    · exact h.elim
  · rintro ⟨⟨m, title, ops, attributes, hm, htitle, hops | ⟨-, hno, -⟩, heach⟩, hlist⟩
    · exact ⟨m, title, ops, attributes, hm, htitle, .inl hops, heach⟩
    · exact (hlist ⟨m, hm, hno⟩).elim

theorem Each.and_iff {α : Type} {R R' : α → List Json → Prop} {Q : α → Prop}
    (h : ∀ a ps, R' a ps ↔ R a ps ∧ Q a) {as : List α} {parts : List Json} :
    Each R' as parts ↔ Each R as parts ∧ ∀ a ∈ as, Q a := by
  induction as generalizing parts with
  | nil => simp [Each]
  | cons a as ih =>
    simp only [Each, h, ih, List.forall_mem_cons]
    constructor
    · rintro ⟨ps, qs, ⟨ha, hQ⟩, ⟨has, hQs⟩, rfl⟩
      exact ⟨⟨ps, qs, ha, has, rfl⟩, hQ, hQs⟩
    · rintro ⟨⟨ps, qs, ha, has, rfl⟩, hQ, hQs⟩
      exact ⟨ps, qs, ⟨ha, hQ⟩, ⟨has, hQs⟩, rfl⟩

theorem MapForm.takes_iff {form : MapForm} {m : List (String × Json)} {parts : List Json} :
    form.Takes False m parts ↔ form.Takes True m parts ∧ ¬ form.Surplus m := by
  cases form with
  | resource =>
    simp only [MapForm.Takes, MapForm.Surplus]
    constructor
    · rintro ⟨type, bodies, ps, htype, hbodies, heach, rfl⟩
      obtain ⟨heach, hlists⟩ := (Each.and_iff body_iff).mp heach
      refine ⟨⟨type, bodies, ps, htype, hbodies, heach, rfl⟩, ?_⟩
      rintro ⟨bodies', hbodies', j, hj, hno⟩
      exact hlists j (hbodies.unique hbodies' ▸ hj) hno
    · rintro ⟨⟨type, bodies, ps, htype, hbodies, heach, rfl⟩, hno⟩
      refine ⟨type, bodies, ps, htype, hbodies, ?_, rfl⟩
      exact (Each.and_iff body_iff).mpr
        ⟨heach, fun j hj hlist => hno ⟨bodies, hbodies, j, hj, hlist⟩⟩
  | heredoc | call | conditional | definition => simp [MapForm.Takes, MapForm.Surplus]

theorem Form.takes_iff {form : Form} {args parts : List Json} :
    form.Takes False args parts ↔ form.Takes True args parts ∧ ¬ form.Surplus args := by
  cases form with
  | text =>
    simp only [Form.Takes, Form.Surplus]
    constructor
    · rintro ⟨s, more, rfl, hmore, rfl⟩
      obtain rfl : more = [] := by simpa using hmore
      exact ⟨⟨s, [], rfl, .inl trivial, rfl⟩, by simp⟩
    · rintro ⟨⟨s, more, rfl, -, rfl⟩, hone⟩
      obtain rfl : more = [] := by simpa using hone
      exact ⟨s, [], rfl, .inr rfl, rfl⟩
  | atMostOne =>
    simp only [Form.Takes, Form.Surplus, false_or, true_or, true_and, not_lt, and_comm]
  | nothing => simp only [Form.Takes, Form.Surplus, false_or, true_or, true_and, not_not, and_comm]
  | map form =>
    simp only [Form.Takes, Form.Surplus]
    constructor
    · rintro ⟨arg, more, m, rfl, hmore, hm, h⟩
      obtain rfl : more = [] := by simpa using hmore
      obtain ⟨h, hno⟩ := MapForm.takes_iff.mp h
      refine ⟨⟨arg, [], m, rfl, .inl trivial, hm, h⟩, ?_⟩
      rintro (hone | ⟨arg', m', hargs, hm', hsurplus⟩)
      · exact absurd hone (by simp)
      · obtain rfl : arg = arg' := by simpa using hargs
        exact hno (hm.unique hm' ▸ hsurplus)
    · rintro ⟨⟨arg, more, m, rfl, -, hm, h⟩, hno⟩
      obtain ⟨hone, hmap⟩ := not_or.mp hno
      obtain rfl : more = [] := by simpa using hone
      exact ⟨arg, [], m, rfl, .inr rfl, hm, MapForm.takes_iff.mpr
        ⟨h, fun hsurplus => hmap ⟨arg, m, rfl, hm, hsurplus⟩⟩⟩
  | every | entries | one | two | oneOrTwo | oneOrMore | arms | choices =>
    simp [Form.Takes, Form.Surplus]

theorem shape_iff {j : Json} {parts : List Json} :
    Shape False j parts ↔ Shape True j parts ∧ ¬ Surplus j := by
  by_cases hcall : ∃ tag args, j = .object [("^", .array (.string tag :: args))]
  · obtain ⟨tag, args, rfl⟩ := hcall
    rcases hform : Form.table.get? tag with _ | form
    · simp [Shape, Surplus, callTakes_none hform, hform]
    · simp [Shape, Surplus, callTakes_some hform, hform, Form.takes_iff]
  · have hno : ¬ Surplus j := by
      rintro ⟨tag, args, _, h, _⟩
      exact hcall ⟨tag, args, h⟩
    rw [and_iff_left hno]
    unfold Shape
    split
    · rfl
    · constructor <;>
      · rintro ⟨tag, args, rfl, -⟩
        exact (hcall ⟨tag, args, rfl⟩).elim
    · rfl
    · rfl

theorem formed_iff {j : Json} :
    Formed False j ↔ Formed True j ∧ ∀ p, Occurs p j → ¬ Surplus p := by
  constructor
  · intro h
    induction h with
    | node hshape _ ih =>
      obtain ⟨hshape, hno⟩ := shape_iff.mp hshape
      refine ⟨.node hshape fun p hp => (ih p hp).1, ?_⟩
      rintro p (_ | ⟨hshape', hq, hp⟩)
      · exact hno
      · exact (ih _ (hshape'.unique hshape ▸ hq)).2 p hp
  · rintro ⟨h, hno⟩
    induction h with
    | node hshape _ ih =>
      refine .node (shape_iff.mpr ⟨hshape, hno _ .here⟩) fun p hp => ih p hp fun q hq => ?_
      exact hno q (.inside hshape hp hq)

end Grammar

end Cascade
