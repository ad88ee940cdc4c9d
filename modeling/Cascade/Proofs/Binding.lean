import Cascade.Proofs.Hierarchy
/-!
What a hierarchy is bound to. The headers of the files that the facts of a node lead to may set facts
themselves; these stand over the facts of the node, those of a more important level over those of a
less important one. The levels are then where the templates lead with the facts so changed, and every
level has in memory what is there.
-/
namespace Cascade

namespace Text

/-- A carriage return at the end of a comment is not part of what it says. -/
theorem trim_dropWhile_chomp (l : List Char) :
    trim ((trimStart (chomp l)).dropWhile (· = '#')) = trim ((trimStart l).dropWhile (· = '#')) := by
  unfold chomp
  split
  next hr =>
    obtain ⟨s, rfl⟩ := List.getLast?_eq_some_iff.mp hr
    have hcr : isBlank '\r' = true := by decide
    rw [List.dropLast_concat]
    rcases trimStart_concat hcr s with hs | ⟨hs, hs'⟩
    · have hmarks : (trimStart s ++ ['\r']).dropWhile (· = '#') =
          (trimStart s).dropWhile (· = '#') ++ ['\r'] := by
        rw [List.dropWhile_append]
        split
        next hempty => simp [List.isEmpty_iff.mp hempty]
        next => rfl
      rw [hs, hmarks, trim_concat hcr]
    · rw [hs, hs']
  next => rfl

end Text

namespace DataFile

variable {f : DataFile} {path text key : String}

/-- What the comment lines at the head of a text say of a fact; the last that sets it counts. -/
def headerFact? (text key : String) : Option Value :=
  Table.get? ((headerLines text).filterMap factOf?).reverse key

/-- What the header of the file at a path says of a fact, if there is a file. -/
def headerFactAt? (files : Files) (path key : String) : Option Value :=
  match files.readOptional path with
  | .ok (some text) => headerFact? text key
  | _ => none

theorem factOf?_chomp (l : List Char) : factOf? (Text.chomp l) = factOf? l := by
  unfold factOf?
  simp only [Text.trim_dropWhile_chomp]

theorem get?_factOverrides (h : parse path text = .ok f) (key : String) :
    Table.get? f.factOverrides key = headerFact? text key := by
  have hn : ∀ l ∈ headerLines text, '\n' ∉ l := fun l hl =>
    Text.notMem_of_mem_lines ((List.takeWhile_sublist _).mem hl)
  have hlines : Text.lines f.header.toList = (headerLines text).map Text.chomp := by
    have hread := Text.lines_flatMap hn []
    rw [List.append_nil] at hread
    rw [header_of_parse h, headerOf, String.toList_ofList, hread]
    exact List.append_nil _
  have hread : factOf? ∘ Text.chomp = factOf? := funext factOf?_chomp
  rw [factOverrides, hlines, List.filterMap_map, hread, Table.ofList, Table.get?_merge,
    Table.get?_nil, Option.or_none]
  rfl

theorem nodup_factsIn (copy : Option DataFile) : (Table.keys (factsIn copy)).Nodup := by
  cases copy with
  | none => exact List.nodup_nil
  | some f => exact Table.nodup_keys_merge List.nodup_nil

/-- What is at a path, as it is kept in memory. -/
inductive CopyAt (files : Files) (path : String) : Option DataFile → Prop
  | missing (h : files.readOptional path = .ok none) : CopyAt files path none
  | found {text : String} {f : DataFile} (h : files.readOptional path = .ok (some text))
      (hf : parse path text = .ok f) : CopyAt files path (some f)

variable {files : Files} {copy : Option DataFile}

theorem copyAt_of_open (h : DataFile.open files path = .ok copy) : CopyAt files path copy := by
  unfold DataFile.open at h
  split at h
  · exact absurd h (by simp)
  next hnone =>
    obtain rfl := Except.ok.inj h
    exact .missing hnone
  next text hsome =>
    cases hp : parse path text with
    | error e => simp [hp, Except.map] at h
    | ok f =>
      obtain rfl : some f = copy := by simpa [hp, Except.map] using h
      exact .found hsome hp

theorem CopyAt.get?_factsIn (h : CopyAt files path copy) (key : String) :
    Table.get? (factsIn copy) key = headerFactAt? files path key := by
  cases h with
  | missing h => simp [headerFactAt?, h, factsIn]
  | found h hf =>
    rw [headerFactAt?, h]
    exact get?_factOverrides hf key

end DataFile

theorem exists_of_isOk {ε α : Type} {x : Except ε α} (h : x.isOk = true) : ∃ a, x = .ok a := by
  cases x with
  | error e => exact absurd h Bool.false_ne_true
  | ok a => exact ⟨a, rfl⟩

theorem findSome?_eq_of_forall₂ {α β γ : Type} {f : α → Option γ} {g : β → Option γ} {as : List α}
    {bs : List β} (h : List.Forall₂ (fun a b => f a = g b) as bs) :
    as.findSome? f = bs.findSome? g := by
  induction h with
  | nil => rfl
  | cons hab _ ih => rw [List.findSome?_cons, List.findSome?_cons, hab, ih]

/-- A level as it is bound with the facts `facts`: where its template leads, what is there, and under
which keys it is stored. -/
structure CompiledLevel.Binds (files : Files) (h : Hierarchy) (facts trusted : Facts) (level : Level)
    (l : CompiledLevel) : Prop where
  source : l.level = level
  path : l.path = Path.join (level.datadir.getD h.datadir)
    (Template.interpolatePath (Compiled.scope facts trusted) level.template)
  file : DataFile.CopyAt files l.path l.file
  keys : l.keys = level.keys.or h.keys

namespace Compiled

variable {files : Files} {h : Hierarchy} {facts trusted : Facts} {level : Level}
  {l : CompiledLevel} {levels : List CompiledLevel} {c : Compiled}

theorem binds_of_bindLevel (hb : bindLevel files h facts trusted level = .ok l) :
    l.Binds files h facts trusted level := by
  obtain ⟨file, ho, rfl⟩ := bindLevel_eq_ok.mp hb
  refine ⟨rfl, rfl, DataFile.copyAt_of_open ho, ?_⟩
  cases level.keys <;> rfl

theorem forall₂_binds (hl : bindLevels files h facts trusted = .ok levels) :
    List.Forall₂ (fun level l => l.Binds files h facts trusted level) h.levels levels :=
  (forall₂_of_mapM hl).imp fun _ _ => binds_of_bindLevel

theorem headerFacts_cons (l : CompiledLevel) (levels : List CompiledLevel) :
    headerFacts (l :: levels) = Table.merge (headerFacts levels) (DataFile.factsIn l.file) := by
  rw [headerFacts_eq, headerFacts_eq, List.reverse_cons, List.foldl_append]
  rfl

theorem nodup_headerFacts (levels : List CompiledLevel) :
    (Table.keys (headerFacts levels)).Nodup := by
  induction levels with
  | nil => exact List.nodup_nil
  | cons l levels ih =>
    rw [headerFacts_cons]
    exact Table.nodup_keys_merge ih

/-- The most important level that sets a fact has the last word on it. -/
theorem get?_headerFacts (levels : List CompiledLevel) (key : String) :
    Table.get? (headerFacts levels) key =
      levels.findSome? fun l => Table.get? (DataFile.factsIn l.file) key := by
  induction levels with
  | nil => rfl
  | cons l levels ih =>
    rw [headerFacts_cons, Table.get?_merge_of_nodup _ (DataFile.nodup_factsIn l.file), ih,
      List.findSome?_cons]
    cases Table.get? (DataFile.factsIn l.file) key <;> rfl

/-- The fact that the headers of the files set, with the files looked up where the facts lead to. -/
def headerFactOf? (files : Files) (h : Hierarchy) (facts trusted : Facts) (key : String) :
    Option Value :=
  h.levels.findSome? fun level => DataFile.headerFactAt? files (pathOf h level facts trusted) key

theorem get?_headerFacts_of_bindLevels (hl : bindLevels files h facts trusted = .ok levels)
    (key : String) :
    Table.get? (headerFacts levels) key = headerFactOf? files h facts trusted key := by
  have hsame : List.Forall₂ (fun level l => DataFile.headerFactAt? files
      (pathOf h level facts trusted) key = Table.get? (DataFile.factsIn l.file) key)
        h.levels levels :=
    (forall₂_binds hl).imp fun _ _ hb => by rw [hb.file.get?_factsIn, hb.path, pathOf]
  rw [get?_headerFacts, headerFactOf?, findSome?_eq_of_forall₂ hsame]

/-- The facts and the levels that a hierarchy is bound to go together. A fact is what the most
important level says of it whose header says anything, where the levels are looked up with the facts
of the node, and what the node says of it otherwise; and the levels are bound with these facts. -/
theorem compile_agrees (hc : compile files h facts trusted = .ok c) :
    (∀ key, Table.get? c.facts key =
      (headerFactOf? files h facts trusted key).or (Table.get? facts key)) ∧
    List.Forall₂ (fun level l => l.Binds files h c.facts trusted level) h.levels c.levels := by
  refine ⟨fun key => ?_, forall₂_binds (bindLevels_of_compile hc)⟩
  -- the headers that count are those of the first binding, whether or not there is a second
  obtain ⟨levels, hl, hrest⟩ := compile_eq_ok.mp hc
  rw [← get?_headerFacts_of_bindLevels hl]
  rcases hrest with ⟨hnone, rfl⟩ | ⟨-, hfacts, -⟩
  · rw [hnone]
    rfl
  · rw [hfacts, Table.get?_merge_of_nodup _ (nodup_headerFacts levels)]

/-- The fact `role` leads to a file that sets it anew, and the common file sets it too. -/
def roleFiles : Files :=
  ⟨[(["data"], .directory 0),
    (["data", "web.yaml"], .file (.text "# role = \"db\"\nport: 80\n") 0),
    (["data", "db.yaml"], .file (.text "port: 5432\n") 0),
    (["data", "common.yaml"], .file (.text "# role = \"mail\"\n# site = \"x\"\n") 0)], [], 0⟩

def roleHierarchy : Hierarchy :=
  ⟨5, "data", none,
    [⟨"role", "%\x7brole\x7d.yaml", none, none⟩, ⟨"common", "common.yaml", none, none⟩]⟩

def roleFacts : Facts := [("role", .string "web"), ("os", .string "linux")]

theorem compile_role_agrees : ∃ c, compile roleFiles roleHierarchy roleFacts [] = .ok c ∧
    ["role", "site", "os"].map (fun key => (Table.get? c.facts key).map Value.display) =
      [some "db", some "x", some "linux"] ∧
    List.Forall₂ (fun level l => l.Binds roleFiles roleHierarchy c.facts [] level)
      roleHierarchy.levels c.levels := by
  obtain ⟨c, hc⟩ := exists_of_isOk
    (show (compile roleFiles roleHierarchy roleFacts []).isOk = true by decide +kernel)
  obtain ⟨hfacts, hlevels⟩ := compile_agrees hc
  have hsaid : ["role", "site", "os"].map (fun key => ((headerFactOf? roleFiles roleHierarchy
      roleFacts [] key).or (Table.get? roleFacts key)).map Value.display) =
        [some "db", some "x", some "linux"] := by decide +kernel
  refine ⟨c, hc, ?_, hlevels⟩
  simp only [hfacts]
  exact hsaid

end Compiled
end Cascade
