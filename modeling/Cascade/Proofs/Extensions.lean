import Cascade.Hierarchy.Document
import Cascade.Proofs.Components
import Cascade.Proofs.Files
/-!
Extensions of the templates of version 3. Whether a template has an extension is decided by the text
after its last brace. That is the answer one gets from the file name when the last reference stands as
some word and what is before it counts for nothing, unless the point of the extension comes right after
that reference.
-/
namespace Cascade

namespace Text

variable {d : Char} {s a b : List Char}

theorem strip?_singleton (d c : Char) (s : List Char) :
    strip? [d] (c :: s) = if d = c then some s else none := rfl

theorem notMem_of_splitOnce (h : splitOnce [d] s = some (a, b)) : d ∉ a := by
  induction s generalizing a with
  | nil => exact absurd h nofun
  | cons c s ih =>
    rw [splitOnce, strip?_singleton] at h
    by_cases hc : d = c
    · rw [if_pos hc] at h
      obtain ⟨rfl, -⟩ := Prod.mk.inj (Option.some.inj h)
      exact List.not_mem_nil
    · rw [if_neg hc] at h
      obtain ⟨⟨a', b'⟩, hs, he⟩ := Option.map_eq_some_iff.mp h
      obtain ⟨rfl, rfl⟩ := Prod.mk.inj he
      simp only [List.mem_cons, not_or]
      exact ⟨hc, ih hs⟩

theorem notMem_of_splitOnce_eq_none (h : splitOnce [d] s = none) : d ∉ s := by
  intro hd
  obtain ⟨a, b, rfl⟩ := List.append_of_mem hd
  exact splitOnce_ne_none a [d] b (by simpa using h)

theorem notMem_of_rsplitOnce (h : rsplitOnce [d] s = some (a, b)) : d ∉ b := by
  obtain ⟨⟨b', a'⟩, hs, he⟩ := Option.map_eq_some_iff.mp h
  obtain ⟨-, rfl⟩ := Prod.mk.inj he
  rw [List.mem_reverse]
  exact notMem_of_splitOnce hs

theorem notMem_of_rsplitOnce_eq_none (h : rsplitOnce [d] s = none) : d ∉ s := by
  have hs := notMem_of_splitOnce_eq_none (Option.map_eq_none_iff.mp h)
  rwa [List.mem_reverse] at hs

end Text

namespace Path

variable {p q name : String}

/-- The path ends in a name with a point that does not start it. -/
def HasExtension (p : String) : Prop :=
  ∃ stem ext, fileName? p = some (stem ++ "." ++ ext) ∧ stem ≠ ""

/-- A point in a text cuts it in two. -/
theorem exists_of_point_mem (h : '.' ∈ p.toList) : ∃ stem ext, p = stem ++ "." ++ ext := by
  obtain ⟨a, b, hp⟩ := List.append_of_mem h
  refine ⟨String.ofList a, String.ofList b, ?_⟩
  rw [← String.toList_inj, hp]
  simp

theorem isSome_splitExtension :
    (splitExtension name).2.isSome ↔ ∃ stem ext, name = stem ++ "." ++ ext ∧ stem ≠ "" := by
  have hpoint : ".".toList = ['.'] := rfl
  constructor
  · intro h
    obtain ⟨ext, hext⟩ := Option.isSome_iff_exists.mp h
    refine ⟨(splitExtension name).1, ext, splitExtension_eq (Prod.ext rfl hext), ?_⟩
    unfold splitExtension at hext ⊢
    split at hext
    · exact absurd hext nofun
    · exact absurd hext nofun
    next stem rest hne hsplit =>
      intro hempty
      exact hne (by simpa using hempty)
  · rintro ⟨stem, ext, rfl, hstem⟩
    unfold splitExtension
    split
    next hsplit =>
      have hnone := Text.notMem_of_rsplitOnce_eq_none hsplit
      exact absurd hnone (by simp [String.toList_append])
    next rest hsplit =>
      -- the last point would start the name, and there would be none before it
      have heq := Text.rsplitOnce_eq hsplit
      have hfree := Text.notMem_of_rsplitOnce hsplit
      obtain ⟨c, cs, hcs⟩ := List.exists_cons_of_ne_nil (mt String.toList_eq_nil_iff.mp hstem)
      simp only [String.toList_append, hcs, hpoint, List.cons_append, List.nil_append,
        List.append_assoc, List.cons.injEq] at heq
      exact absurd (heq.2 ▸ hfree) (by simp)
    next => rfl

theorem splitExtension_of_point_notMem (h : '.' ∉ name.toList) :
    splitExtension name = (name, none) := by
  unfold splitExtension
  split
  · rfl
  · rfl
  next hsplit =>
    rw [Text.rsplitOnce_eq hsplit] at h
    exact absurd h (by simp)

/-- A name that is put together from a stem and an extension, with one point between them. -/
theorem splitExtension_append {stem ext : String} (hne : stem ≠ "") (hstem : '.' ∉ stem.toList)
    (hext : '.' ∉ ext.toList) : splitExtension (stem ++ "." ++ ext) = (stem, some ext) := by
  have hname : (stem ++ "." ++ ext).toList = stem.toList ++ '.' :: ext.toList := by
    simp [String.toList_append]
  unfold splitExtension
  rw [hname]
  cases hsplit : Text.rsplitOnce ['.'] (stem.toList ++ '.' :: ext.toList) with
  | none => exact absurd (Text.notMem_of_rsplitOnce_eq_none hsplit) (by simp)
  | some r =>
    obtain ⟨a, b⟩ := r
    have heq := Text.rsplitOnce_eq hsplit
    rw [List.append_assoc, List.singleton_append,
      List.append_cons_inj_of_notMem hstem hext] at heq
    obtain ⟨rfl, -, rfl⟩ := heq
    obtain ⟨c, cs, hcs⟩ := List.exists_cons_of_ne_nil (mt String.toList_eq_nil_iff.mp hne)
    rw [hcs]
    simp only [← hcs, String.ofList_toList]

theorem isSome_extension? : (extension? p).isSome ↔ HasExtension p := by
  unfold extension? HasExtension
  cases h : fileName? p with
  | none => simp
  | some name =>
    rw [Option.bind_some, isSome_splitExtension]
    constructor
    · rintro ⟨stem, ext, rfl, hstem⟩
      exact ⟨stem, ext, rfl, hstem⟩
    · rintro ⟨stem, ext, hname, hstem⟩
      exact ⟨stem, ext, Option.some.inj hname, hstem⟩

/-- The file name is the last piece that counts, whatever the path starts with. -/
theorem fileName?_eq_some_iff :
    fileName? p = some name ↔ ((pieces p).filterMap ofPiece?).getLast? = some (.name name) := by
  rw [fileName?_eq_some, components_eq]
  cases h : (pieces p).filterMap ofPiece? with
  | nil => cases (cut p).1 <;> simp [Start.components]
  | cons c cs => rw [List.getLast?_append_of_ne_nil _ (List.cons_ne_nil c cs)]

theorem fileName?_congr
    (h : ((pieces p).filterMap ofPiece?).getLast? = ((pieces q).filterMap ofPiece?).getLast?) :
    fileName? p = fileName? q := by
  apply Option.ext
  intro name
  rw [fileName?_eq_some_iff, fileName?_eq_some_iff, h]

/-- The file name of a path that goes on after a slash stands there, or there is none. -/
theorem fileName?_slash (p q : String) : fileName? (p ++ "/" ++ q) =
    if (pieces q).filterMap ofPiece? = [] then fileName? p else fileName? q := by
  split
  next h =>
    apply fileName?_congr
    rw [pieces_slash, List.filterMap_append, h, List.append_nil]
  next h =>
    apply fileName?_congr
    rw [pieces_slash, List.filterMap_append, List.getLast?_append_of_ne_nil _ h]

theorem fileName?_of_slash_notMem (h : '/' ∉ p.toList) :
    fileName? p = some name ↔ name = p ∧ ofPiece? p = some (.name p) := by
  rw [fileName?_eq_some_iff, pieces_of_slash_notMem h]
  cases hp : ofPiece? p with
  | none => simp [hp]
  | some c =>
    rw [List.filterMap_cons_some hp]
    rcases ofPiece?_eq_some hp with rfl | ⟨rfl, rfl⟩
    · simp [eq_comm]
    · simp

/-- A piece is a name if some character of it is no point. -/
theorem ofPiece?_of_mem {c : Char} (hc : c ∈ name.toList) (hpoint : c ≠ '.') :
    ofPiece? name = some (.name name) := by
  unfold ofPiece?
  split
  next => exact absurd hc (by simp)
  next => exact absurd hc (by simpa using hpoint)
  next => exact absurd hc (by simpa using hpoint)
  next => rfl

/-- The last slash of a path. -/
theorem slash_cases (p : String) :
    '/' ∉ p.toList ∨ ∃ dir last, p = dir ++ "/" ++ last ∧ '/' ∉ last.toList := by
  cases h : Text.rsplitOnce ['/'] p.toList with
  | none => exact .inl (Text.notMem_of_rsplitOnce_eq_none h)
  | some parts =>
    obtain ⟨dir, last⟩ := parts
    refine .inr ⟨String.ofList dir, String.ofList last, ?_, ?_⟩
    · rw [← String.toList_inj, Text.rsplitOnce_eq h]
      simp
    · rw [String.toList_ofList]
      exact Text.notMem_of_rsplitOnce h

/-- The first slash of a path. -/
theorem exists_first_slash (p : String) :
    '/' ∉ p.toList ∨ ∃ first rest, p = first ++ "/" ++ rest ∧ '/' ∉ first.toList := by
  cases h : Text.splitOnce ['/'] p.toList with
  | none => exact .inl (Text.notMem_of_splitOnce_eq_none h)
  | some parts =>
    obtain ⟨first, rest⟩ := parts
    refine .inr ⟨String.ofList first, String.ofList rest, ?_, ?_⟩
    · rw [← String.toList_inj, Text.splitOnce_eq h]
      simp
    · rw [String.toList_ofList]
      exact Text.notMem_of_splitOnce h

/-- Text put before a path shows in the file name only if the path has no slash that counts. -/
theorem fileName?_append (p q : String) : fileName? (p ++ q) = fileName? q ∨
    ∃ first, '/' ∉ first.toList ∧ fileName? (p ++ q) = fileName? (p ++ first) ∧
      fileName? q = fileName? first := by
  rcases exists_first_slash q with h | ⟨first, rest, rfl, hfirst⟩
  · exact .inr ⟨q, h, rfl, rfl⟩
  · rw [← String.append_assoc, ← String.append_assoc, fileName?_slash, fileName?_slash]
    split
    · exact .inr ⟨first, hfirst, rfl, rfl⟩
    · exact .inl rfl

theorem fileName?_eq_self {c : Char} (hslash : '/' ∉ p.toList) (hc : c ∈ p.toList) (hpoint : c ≠ '.') :
    fileName? p = some p :=
  (fileName?_of_slash_notMem hslash).mpr ⟨rfl, ofPiece?_of_mem hc hpoint⟩

/-- What a path ends in after its last slash is in its file name. -/
theorem exists_fileName?_append {c : Char} (p : String) (hslash : '/' ∉ q.toList) (hc : c ∈ q.toList)
    (hpoint : c ≠ '.') : ∃ name, fileName? (p ++ q) = some name ∧ c ∈ name.toList := by
  have hmem (s : String) : c ∈ (s ++ q).toList := by simp [String.toList_append, hc]
  have hname (s : String) (hs : '/' ∉ s.toList) : fileName? (s ++ q) = some (s ++ q) :=
    fileName?_eq_self (by simp [String.toList_append, hs, hslash]) (hmem s) hpoint
  rcases slash_cases p with hp | ⟨dir, last, rfl, hlast⟩
  · exact ⟨p ++ q, hname p hp, hmem p⟩
  · have hcounts : (pieces (last ++ q)).filterMap ofPiece? ≠ [] := by
      intro hnil
      have hsome := fileName?_eq_some_iff.mp (hname last hlast)
      rw [hnil] at hsome
      exact absurd hsome nofun
    rw [String.append_assoc, fileName?_slash, if_neg hcounts]
    exact ⟨last ++ q, hname last hlast, hmem last⟩

/-- A name whose first point is not its only one, or no first character, is an extended one as soon as
it has a point. -/
theorem hasExtension_of_name (hslash : '/' ∉ p.toList)
    (hclear : ∀ rest, p = "." ++ rest → '.' ∈ rest.toList ∧ rest ≠ ".") :
    HasExtension p ↔ '.' ∈ p.toList := by
  constructor
  · rintro ⟨stem, ext, hfile, -⟩
    have heq : stem ++ "." ++ ext = p := ((fileName?_of_slash_notMem hslash).mp hfile).1
    simp [← heq, String.toList_append]
  · intro hmem
    have hname : fileName? p = some p := by
      refine (fileName?_of_slash_notMem hslash).mpr ⟨rfl, ?_⟩
      unfold ofPiece?
      split
      next => exact absurd hmem (by simp)
      next => exact absurd (hclear "" rfl).1 (by simp)
      next => exact absurd rfl (hclear "." rfl).2
      next => rfl
    obtain ⟨stem, ext, rfl⟩ := exists_of_point_mem hmem
    by_cases hstem : stem = ""
    · subst hstem
      obtain ⟨hsecond, -⟩ := hclear ext (by simp)
      obtain ⟨stem, ext, rfl⟩ := exists_of_point_mem hsecond
      refine ⟨"." ++ stem, ext, ?_, by simp⟩
      rw [hname]
      simp [String.append_assoc]
    · exact ⟨stem, ext, hname, hstem⟩

end Path

namespace Template

mutual
/-- The texts between the complete references of a template. -/
def runs : List Char → List (List Char)
  | [] => [[]]
  | '%' :: '{' :: s => runsInside [] s
  | c :: s => (runs s).modifyHead (c :: ·)

/-- Inside a reference, of which `path` has been read, last character first. Without its closing brace
it is none. -/
def runsInside (path : List Char) : List Char → List (List Char)
  | [] => ['%' :: '{' :: path.reverse]
  | '}' :: s => [] :: runs s
  | c :: s => runsInside (c :: path) s
end

/-- The text after the last complete reference, if there is one. -/
def tail? (template : String) : Option String :=
  (runs template.toList).tail.getLast?.map String.ofList

/-- A template with a word in the place of each complete reference. -/
def filled (word template : String) : String :=
  word.intercalate ((runs template.toList).map String.ofList)

/-- As `filled`, but without what stands before the last reference. -/
def ending (word template : String) : String := ((tail? template).map (word ++ ·)).getD template

/-- A text that stands for a reference and shows nothing of what it is replaced by. -/
structure IsWord (word : String) : Prop where
  nonempty : word ≠ ""
  point : '.' ∉ word.toList
  slash : '/' ∉ word.toList

/-- The file name that a template ends in holds no brace but those of references, and the point right
after its last reference is not the only thing that makes an extension. -/
structure Clear (word template : String) : Prop where
  brace : ∀ name, Path.fileName? (ending word template) = some name → '}' ∉ name.toList
  point : tail? template ≠ none → ∀ rest,
    Path.fileName? (ending word template) = some (word ++ "." ++ rest) →
      '.' ∈ rest.toList ∧ rest ≠ "."

variable {word template : String} {s : List Char}

/-- A template without complete references is read as it is; after the last one comes the rest. -/
theorem runs_cases (s : List Char) : runs s = [s] ∨
    ∃ r, (runs s).tail.getLast? = some r ∧ '}' :: r <:+ s := by
  induction s using runs.induct (motive_2 := fun path s =>
    runsInside path s = ['%' :: '{' :: (path.reverse ++ s)] ∨
      ∃ r, (runsInside path s).tail.getLast? = some r ∧ '}' :: r <:+ s) with
  | case1 => exact .inl rfl
  | case2 s ih =>
    rw [runs]
    rcases ih with h | ⟨r, hr, hsuffix⟩
    · exact .inl h
    · exact .inr ⟨r, hr, hsuffix.trans (List.suffix_append ['%', '{'] s)⟩
  | case3 c s hc ih =>
    rw [runs.eq_3 c s hc, List.tail_modifyHead]
    rcases ih with h | ⟨r, hr, hsuffix⟩
    · exact .inl (by rw [h, List.modifyHead_cons])
    · exact .inr ⟨r, hr, hsuffix.trans (List.suffix_cons c s)⟩
  | case4 path => exact .inl (by rw [runsInside, List.append_nil])
  | case5 path s ih =>
    -- a brace closes the reference, and what comes after it is the rest if no other reference does
    rw [runsInside, List.tail_cons]
    rcases ih with h | ⟨r, hr, hsuffix⟩
    · exact .inr ⟨s, by rw [h]; rfl, List.suffix_refl _⟩
    · have hlast : (runs s).getLast? = some r := by
        cases hs : runs s with
        | nil => exact absurd (hs ▸ hr) nofun
        | cons first rest =>
          rw [hs, List.tail_cons] at hr
          rw [List.getLast?_cons, hr, Option.getD_some]
      exact .inr ⟨r, hlast, hsuffix.trans (List.suffix_cons '}' s)⟩
  | case6 path c s hc ih =>
    rw [runsInside.eq_3 path c s hc]
    rcases ih with h | ⟨r, hr, hsuffix⟩
    · exact .inl (by rw [h, List.reverse_cons, List.append_assoc, List.singleton_append])
    · exact .inr ⟨r, hr, hsuffix.trans (List.suffix_cons c s)⟩

/-- What follows a closing brace is the text after the last brace, or ends in it. -/
theorem eq_or_exists_of_suffix {r a b : List Char} (hb : '}' ∉ b)
    (h : '}' :: r <:+ a ++ '}' :: b) : r = b ∨ ∃ x, r = x ++ '}' :: b := by
  obtain ⟨before, hbefore⟩ := h
  rcases List.append_eq_append_iff.mp hbefore with ⟨mid, -, hmid⟩ | ⟨mid, -, hmid⟩
  · cases mid with
    | nil => exact .inl (List.cons.inj hmid).2
    | cons c mid => exact .inr ⟨mid, (List.cons.inj hmid).2⟩
  · cases mid with
    | nil => exact .inl (List.cons.inj hmid).2.symm
    | cons c mid =>
      obtain ⟨-, rfl⟩ := List.cons.inj hmid
      exact absurd (by simp) hb

/-- The text after the last brace, against the ending of the template. -/
theorem ending_cases (word template : String) : ∃ tail,
    Hierarchy.hasExtension template = (Path.extension? tail).isSome ∧
      (ending word template = tail ∨
        tail? template ≠ none ∧ ending word template = word ++ tail ∨
          ∃ front, ending word template = front ++ ("\x7d" ++ tail)) := by
  unfold Hierarchy.hasExtension
  have hbrace : "\x7d".toList = ['}'] := rfl
  cases hsplit : Text.rsplitOnce ['}'] template.toList with
  | none =>
    have hfree := Text.notMem_of_rsplitOnce_eq_none hsplit
    refine ⟨template, by simp, .inl ?_⟩
    rcases runs_cases template.toList with h | ⟨r, -, hsuffix⟩
    · rw [ending, tail?, h]
      rfl
    · exact absurd (hsuffix.subset List.mem_cons_self) hfree
  | some parts =>
    obtain ⟨a, b⟩ := parts
    have htemplate : template.toList = a ++ '}' :: b := by
      simpa using Text.rsplitOnce_eq hsplit
    refine ⟨String.ofList b, rfl, ?_⟩
    rcases runs_cases template.toList with h | ⟨r, hr, hsuffix⟩
    · right; right
      refine ⟨String.ofList a, ?_⟩
      rw [ending, tail?, h, ← String.toList_inj]
      simp [String.toList_append, hbrace, htemplate]
    · have htail : tail? template = some (String.ofList r) := by rw [tail?, hr, Option.map_some]
      have hending : ending word template = word ++ String.ofList r := by
        rw [ending, htail, Option.map_some, Option.getD_some]
      rw [hending, htail]
      rcases eq_or_exists_of_suffix (Text.notMem_of_rsplitOnce hsplit) (htemplate ▸ hsuffix) with
        rfl | ⟨x, rfl⟩
      · exact .inr (.inl ⟨Option.some_ne_none _, rfl⟩)
      · right; right
        refine ⟨word ++ String.ofList x, ?_⟩
        rw [← String.toList_inj]
        simp [String.toList_append, hbrace]

/-- A word is part of a name, whatever comes right after it. -/
theorem IsWord.fileName?_append (hword : IsWord word) {first : String} (hslash : '/' ∉ first.toList) :
    Path.fileName? (word ++ first) = some (word ++ first) := by
  obtain ⟨c, hc⟩ := List.exists_mem_of_ne_nil _ (mt String.toList_eq_nil_iff.mp hword.nonempty)
  have hpoint : c ≠ '.' := fun he => hword.point (he ▸ hc)
  exact Path.fileName?_eq_self (by simp [String.toList_append, hword.slash, hslash])
    (by simp [String.toList_append, hc]) hpoint

/-- Right after a word, a name has an extension as soon as it has a point. -/
theorem IsWord.hasExtension_append (hword : IsWord word) {first : String}
    (hslash : '/' ∉ first.toList) :
    Path.HasExtension (word ++ first) ↔ '.' ∈ first.toList := by
  have hname := hword.fileName?_append hslash
  constructor
  · rintro ⟨stem, ext, hfile, -⟩
    have heq : word ++ first = stem ++ "." ++ ext := Option.some.inj (hname.symm.trans hfile)
    have hmem : '.' ∈ (word ++ first).toList := by simp [heq, String.toList_append]
    rw [String.toList_append, List.mem_append] at hmem
    exact hmem.resolve_left hword.point
  · intro hmem
    obtain ⟨stem, ext, rfl⟩ := Path.exists_of_point_mem hmem
    refine ⟨word ++ stem, ext, ?_, ?_⟩
    · rw [hname, String.append_assoc, String.append_assoc, String.append_assoc]
    · intro hempty
      have hlist := congrArg String.toList hempty
      rw [String.toList_append] at hlist
      exact hword.nonempty (String.toList_eq_nil_iff.mp (List.append_eq_nil_iff.mp hlist).1)

/-- A clear file name has an extension for the hierarchy if and only if it shows one to whoever reads
the template from its last reference on. -/
theorem hasExtension_iff (hword : IsWord word) (hclear : Clear word template) :
    Hierarchy.hasExtension template = true ↔ Path.HasExtension (ending word template) := by
  obtain ⟨tail, htail, h⟩ := ending_cases word template
  rw [htail, Path.isSome_extension?]
  rcases h with he | ⟨hreference, he⟩ | ⟨front, he⟩
  · rw [he]
  · rcases Path.fileName?_append word tail with hsame | ⟨first, hslash, hending, hfirst⟩
    · rw [he, Path.HasExtension, Path.HasExtension, hsame]
    · have hname : Path.fileName? (ending word template) = some (word ++ first) := by
        rw [he, hending, hword.fileName?_append hslash]
      have hpoint : ∀ rest, first = "." ++ rest → '.' ∈ rest.toList ∧ rest ≠ "." := by
        rintro rest rfl
        exact hclear.point hreference rest (by rw [hname, String.append_assoc])
      have hplain := Path.hasExtension_of_name hslash hpoint
      have hworded := hword.hasExtension_append hslash
      rw [Path.HasExtension] at hplain hworded
      rw [he, Path.HasExtension, Path.HasExtension, hending, hfirst, hplain, hworded]
  · rw [← String.append_assoc] at he
    rcases Path.fileName?_append (front ++ "\x7d") tail with hsame | ⟨first, hslash, hending, -⟩
    · rw [he, Path.HasExtension, Path.HasExtension, hsame]
    · -- nothing but the last piece counts, and a brace would be left in it
      obtain ⟨name, hname, hmem⟩ : ∃ name,
          Path.fileName? (front ++ ("\x7d" ++ first)) = some name ∧ '}' ∈ name.toList :=
        Path.exists_fileName?_append front (by simp [String.toList_append, hslash])
          (by simp [String.toList_append]) (by decide)
      have hfile : Path.fileName? (ending word template) = some name := by
        rw [he, hending, String.append_assoc, hname]
      exact absurd hmem (hclear.brace name hfile)

end Template

namespace Hierarchy

/-- The templates that a document of version 3 lists. -/
def templatesOf (doc : Yaml) : List String :=
  match doc.get? "hierarchy" with
  | some (.string single) => [single]
  | other => textsOf other

/-- The level that a template of version 3 stands for. -/
def levelOf (template : String) : Level :=
  ⟨template, if hasExtension template then template else template ++ ".yaml", none, none⟩

variable {text root : String} {doc : Yaml} {h : Hierarchy}

theorem levelOf_of_hasExtension {template : String} (ht : hasExtension template = true) :
    (levelOf template).template = template := by
  rw [levelOf, if_pos ht]

theorem levelOf_of_not_hasExtension {template : String} (ht : ¬hasExtension template = true) :
    (levelOf template).template = template ++ ".yaml" := by
  rw [levelOf, if_neg ht]

theorem levels_ofVersion3 : (ofVersion3 root doc).levels = (templatesOf doc).map levelOf := rfl

theorem version_ofVersion5 (h5 : ofVersion5 root doc = .ok h) : h.version = 5 := by
  unfold ofVersion5 at h5
  split at h5
  · rw [pure_bind] at h5
    obtain ⟨levels, -, h5⟩ := bind_eq_ok.mp h5
    rw [← Except.ok.inj h5]
  · exact absurd h5 nofun
  · rw [← Except.ok.inj h5]

theorem exists_of_version3 (hp : parse text root = .ok h) (hv : h.version = 3) :
    ∃ v, Yaml.parse text = .ok v ∧ h = ofVersion3 root (stripColons v) := by
  unfold parse at hp
  split at hp
  · exact absurd hp nofun
  next v hyaml =>
    refine ⟨v, hyaml, ?_⟩
    split at hp
    · exact absurd hp nofun
    next h' hof =>
      obtain rfl := Except.ok.inj hp
      unfold ofYaml at hof
      split at hof
      next entries hmapping =>
        split at hof
        · rw [hmapping, Except.ok.inj hof]
        · exact absurd (hv.symm.trans (version_ofVersion5 hof)) (by decide)
        · exact absurd hof nofun
      · exact absurd hof nofun

/-- Every template of a version 3 document is a level. It is given an extension if and only if its file
name has none after the last reference, provided that the file name is clear. -/
theorem templates_of_version3 (hp : parse text root = .ok h) (hv : h.version = 3) :
    (∃ v, Yaml.parse text = .ok v ∧ h.levels.map (·.name) = templatesOf (stripColons v)) ∧
      ∀ l ∈ h.levels, ∀ word, Template.IsWord word → Template.Clear word l.name →
        (Path.HasExtension (Template.ending word l.name) → l.template = l.name) ∧
          (¬Path.HasExtension (Template.ending word l.name) → l.template = l.name ++ ".yaml") := by
  obtain ⟨v, hyaml, rfl⟩ := exists_of_version3 hp hv
  refine ⟨⟨v, hyaml, ?_⟩, ?_⟩
  · rw [levels_ofVersion3, List.map_map]
    exact List.map_id _
  · intro l hl word hword hclear
    rw [levels_ofVersion3] at hl
    obtain ⟨template, -, rfl⟩ := List.mem_map.mp hl
    have hiff := Template.hasExtension_iff hword hclear
    constructor
    · intro hext
      exact levelOf_of_hasExtension (hiff.mpr hext)
    · intro hext
      exact levelOf_of_not_hasExtension fun ht => hext (hiff.mp ht)

/-- Right after a reference the text of the reference makes no extension, whatever stands before it. -/
theorem extension_after_reference : ∃ h l,
    parse "hierarchy: common.%\x7benv\x7d\n" "" = .ok h ∧ h.version = 3 ∧ l ∈ h.levels ∧
      Template.IsWord "web" ∧ Path.HasExtension (Template.filled "web" l.name) ∧
        l.template = l.name ++ ".yaml" := by
  have hp : parse "hierarchy: common.%\x7benv\x7d\n" "" = .ok ⟨3, "hieradata", none,
      [⟨"common.%\x7benv\x7d", "common.%\x7benv\x7d.yaml", none, none⟩]⟩ := by decide +kernel
  refine ⟨_, _, hp, rfl, List.mem_cons_self, ⟨by decide, by decide, by decide⟩, ?_, by decide⟩
  exact ⟨"common", "web", by decide +kernel, by decide⟩

/-- A listed template with a point in a directory only, and one with a point in its file name. -/
theorem templates_listed : ∃ h l m,
    parse "hierarchy:\n- conf.d/%\x7brole\x7d-web\n- conf/%\x7brole\x7d-web.yaml\n" "" = .ok h ∧
      h.version = 3 ∧ h.levels = [l, m] ∧ l.template = l.name ++ ".yaml" ∧ m.template = m.name := by
  have hp : parse "hierarchy:\n- conf.d/%\x7brole\x7d-web\n- conf/%\x7brole\x7d-web.yaml\n" "" =
      .ok ⟨3, "hieradata", none,
        [⟨"conf.d/%\x7brole\x7d-web", "conf.d/%\x7brole\x7d-web.yaml", none, none⟩,
          ⟨"conf/%\x7brole\x7d-web.yaml", "conf/%\x7brole\x7d-web.yaml", none, none⟩]⟩ := by
    decide +kernel
  have hword : Template.IsWord "w" := ⟨by decide, by decide, by decide⟩
  have hfirst : Path.fileName? (Template.ending "w" "conf.d/%\x7brole\x7d-web") = some "w-web" := by
    decide +kernel
  have hsecond : Path.fileName? (Template.ending "w" "conf/%\x7brole\x7d-web.yaml") =
      some "w-web.yaml" := by
    decide +kernel
  have hclear {template name : String} (hname : Path.fileName? (Template.ending "w" template) = some name)
      (hbrace : '}' ∉ name.toList) (hpoint : name.toList[1]? ≠ some '.') :
      Template.Clear "w" template := by
    constructor
    · intro name' hname'
      exact Option.some.inj (hname.symm.trans hname') ▸ hbrace
    · intro _ rest hrest
      obtain rfl := Option.some.inj (hname.symm.trans hrest)
      exact absurd (by simp [String.toList_append]) hpoint
  obtain ⟨-, hlevels⟩ := templates_of_version3 hp rfl
  refine ⟨_, _, _, hp, rfl, rfl, ?_, ?_⟩
  · refine (hlevels _ List.mem_cons_self "w" hword (hclear hfirst (by decide) (by decide))).2 ?_
    rintro ⟨stem, ext, hname, -⟩
    have hmem : '.' ∈ "w-web".toList := by
      rw [Option.some.inj (hfirst.symm.trans hname)]
      simp [String.toList_append]
    exact absurd hmem (by decide)
  · refine (hlevels _ (by simp) "w" hword (hclear hsecond (by decide) (by decide))).1 ?_
    exact ⟨"w-web", "yaml", hsecond, by decide⟩

end Hierarchy
end Cascade
