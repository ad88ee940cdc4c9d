import Cascade.Hierarchy.DataFile
import Cascade.Proofs.Text
import Cascade.Proofs.Value
/-!
Whether a data file is read as it was written. That its data is, is a matter of YAML. Of its header it
depends on what comes first after it: lines are read as a header as far as they start with `#`, whatever
blanks stand before it, and a key can start that way too, as it is written plain unless the blanks are
those of YAML.
-/
namespace Cascade.DataFile

open Text

variable {l s : List Char} {ls : List (List Char)} {key : String} {v : Value}

theorem isComment_nil : isComment [] = false := rfl

theorem isComment_cons {c : Char} (hc : isBlank c = false) (s : List Char) :
    isComment (c :: s) = (c == '#') := by
  simp [isComment, trimStart, hc]

theorem isComment_append (h : isComment l = true ∨ isComment s = false) :
    isComment (l ++ s) = isComment l := by
  unfold isComment trimStart at h ⊢
  rw [List.dropWhile_append]
  cases hl : l.dropWhile isBlank with
  | nil => simpa [hl] using h
  | cons c rest => rfl

/-- Blanks at the end of a line are no matter. -/
theorem isComment_chomp (l : List Char) : isComment (chomp l) = isComment l := by
  unfold chomp
  split
  next h =>
    obtain ⟨l', rfl⟩ := List.getLast?_eq_some_iff.mp h
    rw [List.dropLast_concat, isComment_append (.inr (by decide))]
  next => rfl

/-- The text of some lines, each with its end. -/
def ended (ls : List (List Char)) : List Char := ls.flatMap (· ++ ['\n'])

theorem headerLines_append (hn : ∀ l ∈ ls, '\n' ∉ l) (hc : ∀ l ∈ ls, isComment l = true)
    (body : String) : headerLines (String.ofList (ended ls) ++ body) =
      ls.map chomp ++ headerLines body := by
  rw [headerLines, String.toList_append, String.toList_ofList, ended, lines_flatMap hn,
    List.takeWhile_append_of_pos]
  · rfl
  · intro l hl
    obtain ⟨l', hl', rfl⟩ := List.mem_map.mp hl
    rw [isComment_chomp, hc l' hl']

/-- What is written after a header is read with the same header if and only if no line of it has a
carriage return to lose and the body starts with no comment. -/
theorem headerOf_append_iff (hn : ∀ l ∈ ls, '\n' ∉ l) (hc : ∀ l ∈ ls, isComment l = true)
    (body : String) : headerOf (String.ofList (ended ls) ++ body) = String.ofList (ended ls) ↔
      ls.map chomp = ls ∧ headerLines body = [] := by
  have hread : headerOf (String.ofList (ended ls) ++ body) =
      String.ofList (ended (ls.map chomp ++ headerLines body)) := by
    rw [headerOf, headerLines_append hn hc]
    rfl
  rw [hread, String.ofList_inj]
  constructor
  · intro h
    have hlines : ∀ l ∈ ls.map chomp ++ headerLines body, '\n' ∉ l := by
      intro l hl
      rcases List.mem_append.mp hl with hl | hl
      · obtain ⟨l', hl', rfl⟩ := List.mem_map.mp hl
        exact fun hm => hn l' hl' (mem_of_mem_chomp hm)
      · exact notMem_of_mem_lines ((List.takeWhile_sublist _).mem hl)
    have hsame : ls.map chomp ++ headerLines body = ls := flatMap_injective hlines hn h
    have hlen := congrArg List.length hsame
    rw [List.length_append, List.length_map] at hlen
    have hnone : headerLines body = [] := List.length_eq_zero_iff.mp (by omega)
    exact ⟨by simpa [hnone] using hsame, hnone⟩
  · rintro ⟨hsame, hnone⟩
    rw [hsame, hnone, List.append_nil]

theorem isComment_line_cons {c : Char} (hc : isBlank c = false) (hne : c ≠ '#') (s : List Char) :
    isComment ((c :: s).takeWhile (· ≠ '\n')) = false := by
  have hline : c ≠ '\n' := by
    rintro rfl
    exact absurd hc (by decide)
  rw [List.takeWhile_cons_of_pos (by simpa using hline), isComment_cons hc]
  simpa using hne

/-- A body starts with no comment if its first line is none. -/
theorem headerLines_eq_nil_iff (body : String) :
    headerLines body = [] ↔ isComment (body.toList.takeWhile (· ≠ '\n')) = false := by
  rw [headerLines]
  by_cases hn : '\n' ∈ body.toList
  · obtain ⟨first, rest, hs, hfirst⟩ := List.eq_append_cons_of_mem hn
    have hline : ∀ c ∈ first, decide (c ≠ '\n') = true := fun c hc =>
      decide_eq_true fun he => hfirst (he ▸ hc)
    have htake : (first ++ '\n' :: rest).takeWhile (· ≠ '\n') = first := by
      rw [List.takeWhile_append_of_pos hline, List.takeWhile_cons_of_neg (by simp), List.append_nil]
    rw [hs, lines_append hfirst, htake, List.takeWhile_cons, isComment_chomp]
    cases isComment first <;> simp
  · have hline : ∀ c ∈ body.toList, decide (c ≠ '\n') = true := fun c hc =>
      decide_eq_true fun he => hn (he ▸ hc)
    have htake : body.toList.takeWhile (· ≠ '\n') = body.toList := by
      have happend : (body.toList ++ []).takeWhile (· ≠ '\n') = body.toList ++ [] :=
        List.takeWhile_append_of_pos hline
      simpa using happend
    rw [htake, lines_eq, List.splitOnP_eq_singleton fun c hc => by simpa using hline c hc]
    cases hs : body.toList with
    | nil => simp [isComment_nil, Option.filter]
    | cons c s => cases hc : isComment (c :: s) <;> simp [hc, Option.filter]

/-- Whether a key is written as it is. -/
def isPlainKey (key : String) : Bool :=
  Yaml.isSimpleKey (.string key) && Yaml.readsAsString key && (Yaml.shapeOf key).plain

/-- Whether the line of the first key is read as a comment. -/
def opensWithComment (data : Table String Value) : Bool :=
  data.head?.any fun e => isPlainKey e.1 && isComment e.1.toList

theorem toList_body_cons (key : String) (v : Value) (data : Table String Value) : ∃ rest,
    (body ((key, v) :: data)).toList =
      if Yaml.isSimpleKey (.string key) then (Yaml.keyText 0 (.string key)).toList ++ ':' :: rest
      else '?' :: rest := by
  have hbody : body ((key, v) :: data) =
      Yaml.print (.mapping ((.string key, v.toYaml) :: Value.toYamlEntries data)) := rfl
  rw [hbody, Yaml.print, Yaml.lines, Yaml.joinEntry]
  cases hs : Yaml.isSimpleKey (.string key) with
  | false => exact ⟨_, by simp [String.join_cons, String.toList_append]; rfl⟩
  | true =>
    cases hb : Yaml.isBlockCollection v.toYaml with
    | false => exact ⟨_, by simp [String.join_cons, String.toList_append]; rfl⟩
    | true => exact ⟨_, by simp [String.join_cons, String.toList_append]; rfl⟩

theorem notMem_of_plain (h : (Yaml.shapeOf key).plain = true) : '\n' ∉ key.toList := by
  intro hm
  have hbreak : key.toList.any Yaml.isBreak = true := List.any_eq_true.mpr ⟨'\n', hm, by decide⟩
  simp [Yaml.shapeOf, hbreak] at h

theorem keyText_of_isPlainKey (h : isPlainKey key = true) : Yaml.keyText 0 (.string key) = key := by
  simp only [isPlainKey, Bool.and_eq_true] at h
  have hn := notMem_of_plain h.2
  simp [Yaml.keyText, Yaml.stringLines, h, hn]

/-- A key that is not written as it is starts with a quote. -/
theorem keyText_of_not_isPlainKey (hs : Yaml.isSimpleKey (.string key) = true)
    (h : isPlainKey key = false) : ∃ c rest, (Yaml.keyText 0 (.string key)).toList = c :: rest ∧
      isBlank c = false ∧ c ≠ '#' := by
  have hplain : (Yaml.readsAsString key && (Yaml.shapeOf key).plain) = false := by
    simpa [isPlainKey, hs] using h
  have hdouble : ∀ t, ∃ c rest, (Yaml.doubleQuoted t).toList = c :: rest ∧
      isBlank c = false ∧ c ≠ '#' := fun t => ⟨'"', _, String.toList_ofList, by decide, by decide⟩
  simp only [Yaml.keyText, Yaml.stringLines, hplain, Bool.not_true, Bool.and_false, Bool.false_and,
    Bool.false_eq_true, ↓reduceIte]
  split
  · exact hdouble _
  · split
    · exact ⟨'\'', _, String.toList_ofList, by decide, by decide⟩
    · exact hdouble _

/-- A body starts with a comment if its first key is written as it is and starts like one. -/
theorem headerLines_body_iff (data : Table String Value) :
    headerLines (body data) = [] ↔ opensWithComment data = false := by
  rw [headerLines_eq_nil_iff]
  cases data with
  | nil => exact ⟨fun _ => rfl, fun _ => rfl⟩
  | cons e data =>
    obtain ⟨key, v⟩ := e
    obtain ⟨rest, hbody⟩ := toList_body_cons key v data
    have hopens : opensWithComment ((key, v) :: data) = (isPlainKey key && isComment key.toList) :=
      rfl
    rw [hbody, hopens]
    cases hs : Yaml.isSimpleKey (.string key) with
    | false =>
      have hplain : isPlainKey key = false := by simp [isPlainKey, hs]
      have hline : isComment (('?' :: rest).takeWhile (· ≠ '\n')) = false :=
        isComment_line_cons (by decide) (by decide) rest
      simp only [Bool.false_eq_true, ↓reduceIte, hline, hplain, Bool.false_and]
    | true =>
      simp only [↓reduceIte]
      cases hplain : isPlainKey key with
      | false =>
        obtain ⟨c, text, htext, hc, hne⟩ := keyText_of_not_isPlainKey hs hplain
        rw [htext, List.cons_append, isComment_line_cons hc hne]
        rfl
      | true =>
        have hn : ∀ c ∈ key.toList, decide (c ≠ '\n') = true := by
          simp only [isPlainKey, Bool.and_eq_true] at hplain
          exact fun c hc => decide_eq_true fun he => notMem_of_plain hplain.2 (he ▸ hc)
        rw [keyText_of_isPlainKey hplain, List.takeWhile_append_of_pos hn, isComment_append
          (.inr (isComment_line_cons (by decide) (by decide) rest))]
        rfl

variable {f : DataFile} {path text : String}

/-- Whether the header of a file is still its header after it is written. -/
def keepsHeader (f : DataFile) : Prop :=
  headerOf f.header = f.header ∧ opensWithComment f.data = false

theorem headerOf_text_iff (hf : f.header = headerOf text) :
    headerOf f.text = f.header ↔ f.keepsHeader := by
  have hn : ∀ l ∈ headerLines text, '\n' ∉ l := fun l hl =>
    notMem_of_mem_lines ((List.takeWhile_sublist _).mem hl)
  have hc : ∀ l ∈ headerLines text, isComment l = true := fun l hl =>
    List.all_eq_true.mp List.all_takeWhile l hl
  have hheader : f.header = String.ofList (ended (headerLines text)) := hf
  have halone := headerOf_append_iff hn hc ""
  rw [String.append_empty, ← hheader] at halone
  rw [DataFile.text, hheader, headerOf_append_iff hn hc, headerLines_body_iff, keepsHeader, hheader,
    ← hheader, halone]
  exact and_congr_left fun _ => (and_iff_left rfl).symm

/-- Whether all values of a file are data. -/
def isData (f : DataFile) : Bool := (Value.hash f.data).isData

theorem isData_iff : f.isData = true ↔
    (Table.keys f.data).Nodup ∧ ∀ e ∈ f.data, e.2.isData = true := by
  rw [isData, Value.isData, Bool.and_eq_true, decide_eq_true_eq, Value.isDataEntries_iff]

theorem isData_empty (path : String) : (DataFile.empty path).isData = true := rfl

theorem isData_set (h : f.isData = true) (hv : v.isData = true) (key : String) :
    (f.set key v).isData = true := by
  rw [isData_iff] at h ⊢
  refine ⟨Table.nodup_keys_set h.1 key v, fun e he => ?_⟩
  rcases Table.mem_of_mem_set he with rfl | he
  · exact hv
  · exact h.2 e he

theorem isData_erase (h : f.isData = true) (key : String) : (f.erase key).isData = true := by
  rw [isData_iff] at h ⊢
  exact ⟨Table.nodup_keys_erase h.1 key, fun e he => h.2 e (Table.mem_of_mem_erase he)⟩

theorem header_of_parse (h : parse path text = .ok f) : f.header = headerOf text := by
  unfold parse at h
  split at h
  · exact absurd h (by simp)
  · split at h
    · exact absurd h (by simp)
    · rw [← Except.ok.inj h]

/-- All that a data file is read as is data. -/
theorem isData_of_parse (h : parse path text = .ok f) : f.isData = true := by
  unfold parse at h
  split at h
  · exact absurd h (by simp)
  next v _ =>
    split at h
    · exact absurd h (by simp)
    next data hd =>
      obtain rfl := Except.ok.inj h
      cases v with
      | null =>
        obtain rfl := Except.ok.inj hd
        rfl
      | mapping entries =>
        obtain rfl := Except.ok.inj hd
        exact Value.isData_ofYaml (.mapping entries)
      | _ => exact absurd hd (by simp [dataOf])

/-- A file as YAML reads it: nothing but comments before the data. -/
def ReadsBack (f : DataFile) : Prop :=
  Yaml.parse f.text =
    .ok (if f.data.isEmpty then .null else .mapping (Value.toYamlEntries f.data))

/-- A file that YAML reads back has the data that was written. -/
theorem parse_of_readsBack (h : f.ReadsBack) (hd : f.isData = true) (path : String) :
    parse path f.text = .ok ⟨path, headerOf f.text, f.data⟩ := by
  have hdata : dataOf (if f.data.isEmpty then .null else .mapping (Value.toYamlEntries f.data)) =
      .ok f.data := by
    split
    next hempty => rw [List.isEmpty_iff.mp hempty, dataOf]
    next =>
      obtain ⟨hkeys, -⟩ := isData_iff.mp hd
      rw [isData, Value.isData, Bool.and_eq_true] at hd
      rw [dataOf, Value.ofYamlEntries_toYamlEntries _ hd.2, Table.ofList_eq_self hkeys]
  rw [parse, h]
  simp only [hdata]

end Cascade.DataFile

namespace Cascade

namespace Yaml

mutual
/-- Whether two nodes are the same and hold no float. -/
def identical : Yaml → Yaml → Bool
  | null, null => true
  | bool a, bool b => a == b
  | integer a, integer b => a == b
  | string a, string b => a == b
  | sequence a, sequence b => identicalItems a b
  | mapping a, mapping b => identicalEntries a b
  | tagged s a, tagged t b => s == t && identical a b
  | _, _ => false

def identicalItems : List Yaml → List Yaml → Bool
  | [], [] => true
  | a :: as, b :: bs => identical a b && identicalItems as bs
  | _, _ => false

def identicalEntries : List (Yaml × Yaml) → List (Yaml × Yaml) → Bool
  | [], [] => true
  | (k, v) :: es, (l, w) :: fs => identical k l && identical v w && identicalEntries es fs
  | _, _ => false
end

mutual
theorem eq_of_identical : ∀ a b : Yaml, identical a b = true → a = b := by
  intro a b h
  cases a <;> cases b <;> simp only [identical, Bool.and_eq_true, beq_iff_eq, Bool.false_eq_true] at h
  case null.null => rfl
  case bool.bool => rw [h]
  case integer.integer => rw [h]
  case string.string => rw [h]
  case sequence.sequence as bs => rw [eq_of_identicalItems as bs h]
  case mapping.mapping es fs => rw [eq_of_identicalEntries es fs h]
  case tagged.tagged s a t b => rw [h.1, eq_of_identical a b h.2]

theorem eq_of_identicalItems : ∀ as bs : List Yaml, identicalItems as bs = true → as = bs
  | [], [], _ => rfl
  | a :: as, b :: bs, h => by
    rw [identicalItems, Bool.and_eq_true] at h
    rw [eq_of_identical a b h.1, eq_of_identicalItems as bs h.2]
  | [], _ :: _, h | _ :: _, [], h => absurd h (by simp [identicalItems])

theorem eq_of_identicalEntries : ∀ es fs : List (Yaml × Yaml), identicalEntries es fs = true →
    es = fs
  | [], [], _ => rfl
  | (k, v) :: es, (l, w) :: fs, h => by
    rw [identicalEntries, Bool.and_eq_true, Bool.and_eq_true] at h
    rw [eq_of_identical k l h.1.1, eq_of_identical v w h.1.2, eq_of_identicalEntries es fs h.2]
  | [], _ :: _, h | _ :: _, [], h => absurd h (by simp [identicalEntries])
end

end Yaml

namespace DataFile

variable {f : DataFile}

/-- As `ReadsBack`, to be computed; no data with a float in it passes. -/
def readsBack (f : DataFile) : Bool :=
  match Yaml.parse f.text with
  | .ok v =>
    v.identical (if f.data.isEmpty then .null else .mapping (Value.toYamlEntries f.data))
  | .error _ => false

theorem ReadsBack.of_readsBack (h : f.readsBack = true) : f.ReadsBack := by
  unfold readsBack at h
  split at h
  next v hv => rw [ReadsBack, hv, Yaml.eq_of_identical _ _ h]
  · exact absurd h (by simp)

end DataFile

end Cascade
