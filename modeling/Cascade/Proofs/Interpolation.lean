import Cascade.Hierarchy.Template
import Cascade.Proofs.Text
/-!
How templates are filled in. A reading goes through a template once, from left to right, and what it
replaces a reference by it does not read. So a template without a loose end can be filled in apart from
what follows it, and values that look like references stay as they are.
-/
namespace Cascade.Template

variable {s t u path dropped dropped' : List Char} {ps qs : List Piece} {scope v w : Value}

/-- How a template is read: its pieces, and what is dropped at the end. A reference goes to the first
brace that closes it; if there is none, it is dropped with all that follows. -/
inductive Scans : List Char → List Piece → List Char → Prop
  | done : Scans [] [] []
  | literal {c : Char} {s dropped : List Char} {ps : List Piece} : ¬['%', '{'] <+: c :: s →
      Scans s ps dropped → Scans (c :: s) (.literal c :: ps) dropped
  | reference {path s dropped : List Char} {ps : List Piece} : '}' ∉ path → Scans s ps dropped →
      Scans ('%' :: '{' :: (path ++ '}' :: s)) (.reference path :: ps) dropped
  | unterminated {s : List Char} : '}' ∉ s → Scans ('%' :: '{' :: s) [] ('%' :: '{' :: s)

theorem piecesInside_append (h : '}' ∉ path) (before s : List Char) :
    piecesInside before (path ++ '}' :: s) = .reference (before.reverse ++ path) :: pieces s := by
  induction path generalizing before with
  | nil => rw [List.nil_append, piecesInside, List.append_nil]
  | cons c path ih =>
    simp only [List.mem_cons, not_or] at h
    rw [List.cons_append, piecesInside, ih h.2]
    · simp
    · exact fun he => h.1 he.symm

theorem piecesInside_eq_nil (h : '}' ∉ s) (before : List Char) : piecesInside before s = [] := by
  induction s generalizing before with
  | nil => rfl
  | cons c s ih =>
    simp only [List.mem_cons, not_or] at h
    rw [piecesInside, ih h.2]
    exact fun he => h.1 he.symm

theorem Scans.pieces_eq (h : Scans t ps dropped) : pieces t = ps := by
  induction h with
  | done => rfl
  | literal hc _ ih =>
    rw [pieces, ih]
    rintro s' rfl rfl
    exact hc ⟨s', rfl⟩
  | reference hp _ ih => rw [pieces, piecesInside_append hp, ih, List.reverse_nil, List.nil_append]
  | unterminated hs => rw [pieces, piecesInside_eq_nil hs]

/-- Every template can be read. -/
theorem exists_scans : ∀ t : List Char, ∃ ps dropped, Scans t ps dropped
  | [] => ⟨[], [], .done⟩
  | c :: s => by
    by_cases hlead : ['%', '{'] <+: c :: s
    · obtain ⟨r, hr⟩ := hlead
      rw [← hr]
      by_cases hclosed : '}' ∈ r
      · obtain ⟨path, rest, rfl, hpath⟩ := List.eq_append_cons_of_mem hclosed
        have hlt : rest.length < (c :: s).length := by
          rw [← hr]
          simp only [List.length_append, List.length_cons]
          omega
        obtain ⟨ps, dropped, h⟩ := exists_scans rest
        exact ⟨_, dropped, .reference hpath h⟩
      · exact ⟨[], _, .unterminated hclosed⟩
    · obtain ⟨ps, dropped, h⟩ := exists_scans s
      exact ⟨_, dropped, .literal hlead h⟩
termination_by t => t.length
decreasing_by
  · exact hlt
  · exact Nat.lt_succ_self _

/-- Every reference that is met has its end. -/
def Terminated (t : List Char) : Prop := ∃ ps, Scans t ps []

/-- Nothing that follows can change how this is read. -/
def Closed (t : List Char) : Prop := Terminated t ∧ t.getLast? ≠ some '%'

/-- One template is read after another, unless a reference begins where they meet. -/
theorem Scans.append (h : Scans t ps []) (hmeet : t.getLast? = some '%' → u.head? ≠ some '{')
    (hu : Scans u qs dropped) : Scans (t ++ u) (ps ++ qs) dropped := by
  generalize hnone : ([] : List Char) = none at h
  induction h with
  | done => exact hu
  | @literal c s _ ps hc _ ih =>
    refine .literal ?_ (ih (fun hlast => hmeet ?_) hnone)
    · rintro ⟨r, hr⟩
      cases s with
      | nil =>
        simp only [List.cons_append, List.nil_append, List.cons.injEq] at hr
        obtain ⟨rfl, rfl⟩ := hr
        exact hmeet rfl rfl
      | cons d s =>
        simp only [List.cons_append, List.nil_append, List.cons.injEq] at hr
        obtain ⟨rfl, rfl, -⟩ := hr
        exact hc ⟨s, rfl⟩
    · cases s with
      | nil => exact absurd hlast (by simp)
      | cons d s => rwa [List.getLast?_cons_cons]
  | @reference path s _ ps hp _ ih =>
    have hrest := ih (fun hlast => hmeet ?_) hnone
    · simpa using Scans.reference hp hrest
    · cases s with
      | nil => exact absurd hlast (by simp)
      | cons d s =>
        have hassoc : '%' :: '{' :: (path ++ '}' :: d :: s) =
            ('%' :: '{' :: (path ++ ['}'])) ++ d :: s := by simp
        rw [hassoc, List.getLast?_append, hlast]
        rfl
  | unterminated => exact absurd hnone (List.cons_ne_nil _ _).symm

/-- A text without references is read as it is. -/
theorem scans_literal (h : ¬['%', '{'] <:+: t) : Scans t (t.map .literal) [] := by
  induction t with
  | nil => exact .done
  | cons c t ih =>
    exact .literal (fun hlead => h hlead.isInfix)
      (ih fun hin => h (hin.trans (List.suffix_cons c t).isInfix))

/-- The text of pieces in which `value` stands for the references. -/
def fill (value : List Char → String) (ps : List Piece) : String :=
  String.ofList <| ps.flatMap fun
    | .literal c => [c]
    | .reference path => (value path).toList

theorem fill_append (value : List Char → String) (ps qs : List Piece) :
    fill value (ps ++ qs) = fill value ps ++ fill value qs := by
  rw [fill, List.flatMap_append, String.ofList_append]
  rfl

theorem fill_literal (value : List Char → String) (t : List Char) :
    fill value (t.map .literal) = String.ofList t := by
  rw [fill, List.flatMap_map]
  exact congrArg String.ofList (List.flatMap_singleton' t)

theorem fill_reference (value : List Char → String) (path : List Char) :
    fill value [.reference path] = value path := by
  rw [fill, List.flatMap_singleton, String.ofList_toList]

/-- What is put in place of a reference. -/
def accepted (accepts : String → Bool) (scope : Value) (path : List Char) : String :=
  if accepts (valueText scope path) then valueText scope path else ""

theorem expand_eq_fill {template : String} (h : Scans template.toList ps dropped)
    (accepts : String → Bool) (scope : Value) :
    expand accepts scope template = fill (accepted accepts scope) ps := by
  rw [expand, h.pieces_eq, fill]
  congr 2
  funext p
  cases p with
  | literal c => rfl
  | reference path =>
    simp only [Piece.expand, accepted]
    split <;> rfl

section Expand

variable (accepts : String → Bool) (scope : Value)

theorem expand_append {t u : String} (h : Closed t.toList) :
    expand accepts scope (t ++ u) = expand accepts scope t ++ expand accepts scope u := by
  obtain ⟨⟨ps, ht⟩, hlast⟩ := h
  obtain ⟨qs, dropped, hu⟩ := exists_scans u.toList
  have happend : Scans (t ++ u).toList (ps ++ qs) dropped := by
    rw [String.toList_append]
    exact ht.append (fun hl => absurd hl hlast) hu
  rw [expand_eq_fill happend, expand_eq_fill ht, expand_eq_fill hu, fill_append]

theorem expand_unterminated {t r : String} (h : Terminated t.toList) (hr : '}' ∉ r.toList) :
    expand accepts scope (t ++ "%\x7b" ++ r) = expand accepts scope t := by
  obtain ⟨ps, ht⟩ := h
  have happend : Scans (t ++ "%\x7b" ++ r).toList (ps ++ []) ('%' :: '{' :: r.toList) := by
    rw [String.toList_append, String.toList_append, List.append_assoc]
    exact ht.append (by simp) (.unterminated hr)
  rw [expand_eq_fill happend, expand_eq_fill ht, List.append_nil]

end Expand

/-- Steps that lead from one value to another: keys of hashes and positions in arrays. -/
inductive Leads : List (List Char) → Value → Value → Prop
  | here (v : Value) : Leads [] v v
  | key {segment : List Char} {rest : List (List Char)} {entries : Table String Value}
      {w v : Value} : entries.get? (String.ofList segment) = some w → Leads rest w v →
      Leads (segment :: rest) (.hash entries) v
  | position {segment : List Char} {rest : List (List Char)} {items : List Value} {i : Nat}
      {w v : Value} : Decimal.readCount? segment = some i → items[i]? = some w → Leads rest w v →
      Leads (segment :: rest) (.array items) v

theorem walk_eq_some_iff {segments : List (List Char)} :
    walk segments v = some w ↔ Leads segments v w := by
  constructor
  · intro h
    induction segments generalizing v with
    | nil =>
      obtain rfl := Option.some.inj h
      exact .here v
    | cons segment rest ih =>
      obtain ⟨u, hu, hw⟩ := Option.bind_eq_some_iff.mp h
      cases v with
      | hash entries => exact .key hu (ih hw)
      | array items =>
        obtain ⟨i, hi, hu⟩ := Option.bind_eq_some_iff.mp hu
        exact .position hi hu (ih hw)
      | _ => exact absurd hu (by simp [member?])
  · intro h
    induction h with
    | here v => rfl
    | key hw _ ih => rw [walk, member?, hw, Option.bind_some, ih]
    | position hi hw _ ih => rw [walk, member?, hi, Option.bind_some, hw, Option.bind_some, ih]

/-- The path of a reference, without blanks around it and without leading `::`. -/
def barePath (path : List Char) : List Char := Name.dropColons (Text.trim path)

/-- A reference finds a value if its path is not empty and leads to it, from point to point. -/
def Finds (scope : Value) (path : List Char) (v : Value) : Prop :=
  barePath path ≠ [] ∧ Leads ((barePath path).splitOnP (· = '.')) scope v

theorem valueText_of_finds (h : Finds scope path v) : valueText scope path = v.display := by
  obtain ⟨hne, hleads⟩ := h
  rw [valueText]
  split
  next hnil => exact absurd hnil hne
  next =>
    rw [Text.splitBy_eq_splitOnP, ← barePath, walk_eq_some_iff.mpr hleads]

theorem valueText_of_not_finds (h : ¬∃ v, Finds scope path v) : valueText scope path = "" := by
  rw [valueText]
  split
  next => rfl
  next hne =>
    rw [Text.splitBy_eq_splitOnP, ← barePath]
    split
    next v hv => exact absurd ⟨v, hne, walk_eq_some_iff.mp hv⟩ h
    next => rfl

/-- What a path does not take for a value: what leads out of its directory, or cannot be in a path. -/
def Refused (text : String) : Prop :=
  text = ".." ∨ '/' ∈ text.toList ∨ '\\' ∈ text.toList ∨ '\x00' ∈ text.toList

instance (text : String) : Decidable (Refused text) := inferInstanceAs (Decidable (_ ∨ _))

theorem isSafe_iff {text : String} : isSafe text = true ↔ ¬Refused text := by
  have hany : (text.toList.any fun c => c = '/' || c = '\\' || c = '\x00') = true ↔
      '/' ∈ text.toList ∨ '\\' ∈ text.toList ∨ '\x00' ∈ text.toList := by
    simp only [List.any_eq_true, Bool.or_eq_true, decide_eq_true_eq]
    constructor
    · rintro ⟨c, hc, (rfl | rfl) | rfl⟩
      · exact .inl hc
      · exact .inr (.inl hc)
      · exact .inr (.inr hc)
    · rintro (hc | hc | hc)
      · exact ⟨_, hc, .inl (.inl rfl)⟩
      · exact ⟨_, hc, .inl (.inr rfl)⟩
      · exact ⟨_, hc, .inr rfl⟩
  rw [isSafe, Refused, not_or, ← hany, Bool.and_eq_true, bne_iff_ne, Bool.not_eq_true']
  simp only [Bool.not_eq_true]

/-- A reference, as it stands in a template. -/
def referenceTo (path : String) : String := "%\x7b" ++ path ++ "\x7d"

theorem scans_referenceTo {path : String} (h : '}' ∉ path.toList) :
    Scans (referenceTo path).toList [.reference path.toList] [] := by
  have hscans := Scans.reference h .done
  simpa [referenceTo] using hscans

theorem closed_referenceTo {path : String} (h : '}' ∉ path.toList) :
    Closed (referenceTo path).toList := by
  refine ⟨⟨_, scans_referenceTo h⟩, ?_⟩
  rw [referenceTo, String.toList_append, List.getLast?_append]
  simp

theorem interpolate_eq_fill {template : String} (h : Scans template.toList ps dropped)
    (scope : Value) : interpolate scope template = fill (valueText scope) ps :=
  expand_eq_fill h _ scope

theorem interpolatePath_eq_fill {template : String} (h : Scans template.toList ps dropped)
    (scope : Value) : interpolatePath scope template =
      fill (fun path => if Refused (valueText scope path) then "" else valueText scope path) ps := by
  rw [interpolatePath, expand_eq_fill h]
  congr 1
  funext path
  rw [accepted]
  by_cases hr : Refused (valueText scope path)
  · rw [if_pos hr, if_neg fun hs => isSafe_iff.mp hs hr]
  · rw [if_neg hr, if_pos (isSafe_iff.mpr hr)]

theorem interpolate_referenceTo {path : String} (h : '}' ∉ path.toList) (scope : Value) :
    interpolate scope (referenceTo path) = valueText scope path.toList := by
  rw [interpolate_eq_fill (scans_referenceTo h), fill_reference]

/-- Filling in is compositional. A closed template is filled in apart from what follows it, a text
without references stays as it is, a reference comes to the text of the value that it finds, or to
nothing, and one without an end drops the rest. On the whole the pieces of a reading are put together,
with values for the references, and a path leaves out the values it refuses. A value stands in the
result as it is, whatever is in it. -/
theorem interpolation_compositional (scope : Value) :
    (∀ t u : String, Closed t.toList →
      interpolate scope (t ++ u) = interpolate scope t ++ interpolate scope u ∧
      interpolatePath scope (t ++ u) = interpolatePath scope t ++ interpolatePath scope u) ∧
    (∀ t : String, ¬['%', '{'] <:+: t.toList → interpolate scope t = t) ∧
    (∀ path : String, '}' ∉ path.toList →
      interpolate scope (referenceTo path) = valueText scope path.toList) ∧
    (∀ path v, Finds scope path v → valueText scope path = v.display) ∧
    (∀ path, (¬∃ v, Finds scope path v) → valueText scope path = "") ∧
    (∀ t r : String, Terminated t.toList → '}' ∉ r.toList →
      interpolate scope (t ++ "%\x7b" ++ r) = interpolate scope t) ∧
    (∀ t : String, ∃ ps dropped, Scans t.toList ps dropped ∧
      interpolate scope t = fill (valueText scope) ps ∧
      interpolatePath scope t = fill (fun path =>
        if Refused (valueText scope path) then "" else valueText scope path) ps) ∧
    ∀ (t path u : String) (v : Value), Closed t.toList → '}' ∉ path.toList →
      Finds scope path.toList v → interpolate scope (t ++ referenceTo path ++ u) =
        interpolate scope t ++ v.display ++ interpolate scope u := by
  refine ⟨fun _ _ h => ⟨expand_append _ _ h, expand_append _ _ h⟩, fun t h => ?_,
    fun _ h => interpolate_referenceTo h scope, fun _ _ => valueText_of_finds,
    fun _ => valueText_of_not_finds, fun _ _ ht hr => expand_unterminated _ _ ht hr, fun t => ?_,
    fun t path u v ht h hv => ?_⟩
  · rw [interpolate_eq_fill (scans_literal h), fill_literal, String.ofList_toList]
  · obtain ⟨ps, dropped, h⟩ := exists_scans t.toList
    exact ⟨ps, dropped, h, interpolate_eq_fill h scope, interpolatePath_eq_fill h scope⟩
  · rw [String.append_assoc, interpolate, expand_append _ _ ht,
      expand_append _ _ (closed_referenceTo h), String.append_assoc]
    rw [← interpolate, ← interpolate, ← interpolate, interpolate_referenceTo h, valueText_of_finds hv]

/-- A value that looks like a reference, and one that no path takes. -/
def trickyScope : Value :=
  .hash [("a", .string "%\x7bb\x7d"), ("b", .array [.string "..", .string "x"])]

theorem interpolation_compositional_tricky :
    let t := "n/%\x7b ::a \x7d-"
    let u := "%\x7bb.0\x7d.yaml"
    Closed t.toList ∧ Finds trickyScope "b.1".toList (.string "x") ∧
      interpolate trickyScope (t ++ referenceTo "b.1" ++ u) =
        interpolate trickyScope t ++ "x" ++ interpolate trickyScope u ∧
      interpolatePath trickyScope (t ++ u) =
        interpolatePath trickyScope t ++ interpolatePath trickyScope u ∧
      interpolate trickyScope t = "n/%\x7bb\x7d-" ∧ interpolatePath trickyScope u = ".yaml" := by
  intro t u
  have hreference : Scans ('%' :: '{' :: (" ::a ".toList ++ '}' :: ['-'])) _ [] :=
    .reference (by decide) (.literal (by decide) .done)
  have ht : t.toList = 'n' :: '/' :: '%' :: '{' :: (" ::a ".toList ++ '}' :: ['-']) := by
    decide +kernel
  have hclosed : Closed t.toList := by
    rw [ht]
    exact ⟨⟨_, .literal (by decide) (.literal (by decide) hreference)⟩, by decide⟩
  have hsplit : (barePath "b.1".toList).splitOnP (· = '.') = [['b'], ['1']] := by decide +kernel
  have hfinds : Finds trickyScope "b.1".toList (.string "x") := by
    refine ⟨by decide +kernel, ?_⟩
    rw [hsplit]
    exact .key rfl (.position rfl rfl (.here _))
  obtain ⟨happend, -, -, -, -, -, -, hverbatim⟩ := interpolation_compositional trickyScope
  have hvalue := hverbatim t "b.1" u _ hclosed (by decide +kernel) hfinds
  exact ⟨hclosed, hfinds, hvalue, (happend t u hclosed).2, by decide +kernel, by decide +kernel⟩

end Cascade.Template
