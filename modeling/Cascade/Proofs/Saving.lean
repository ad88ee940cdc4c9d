import Cascade.Proofs.Hierarchy
import Cascade.Proofs.Tree
/-!
Saving a data file that has been read and edited. There is room for it where it was read, its header is
the one that was read, and its data is data again; so what is read back is what was saved as far as the
header is one to YAML too and keeps apart from the data behind it.
-/
namespace Cascade

namespace Path

variable {p q : String} {ps : List String} {start : Start}

theorem isAbsolute_iff_cut : isAbsolute p = true ↔ (cut p).1 = .root := by
  rw [cut_fst]
  cases isAbsolute p with
  | true => simp
  | false => by_cases h : (pieces p).head? = some "." <;> simp [h]

theorem cut_assemble (hs : ∀ s ∈ ps, '/' ∉ s.toList)
    (hp : start = .plain → ps.head? ≠ some "" ∧ ps.head? ≠ some ".") :
    (cut (assemble start ps)).1 = start := by
  cases start with
  | root => exact isAbsolute_iff_cut.mp (isAbsolute_append (by decide) _)
  | plain => exact (cut_slashed hs (hp rfl).1 (hp rfl).2).1
  | here =>
    cases ps with
    | nil => rfl
    | cons s ps =>
      have hassemble : assemble .here (s :: ps) = "." ++ "/" ++ slashed (s :: ps) := rfl
      rw [cut, hassemble, pieces_slash, pieces_slashed (List.cons_ne_nil s ps) hs]
      rfl

/-- What counts in pieces without the last one, which counts itself. -/
theorem filterMap_dropLast_trimFillers (ps : List String) :
    (trimFillers ps).dropLast.filterMap ofPiece? = (ps.filterMap ofPiece?).dropLast := by
  rw [← filterMap_trimFillers ps]
  rcases List.eq_nil_or_concat (trimFillers ps) with hnil | ⟨before, last, hps⟩
  · rw [hnil]
    rfl
  · have hlast : (trimFillers ps).getLast? = some last := by simp [hps]
    obtain ⟨c, hc⟩ := Option.ne_none_iff_exists'.mp (getLast?_trimFillers hlast)
    rw [hps, List.concat_eq_append, List.dropLast_concat, List.filterMap_append,
      List.filterMap_cons_some hc, List.filterMap_nil, List.dropLast_concat]

/-- The parent of a path, if it is not the empty one. -/
theorem eq_of_parent? (h : parent? p = some q) :
    q = "" ∨ q = assemble (cut p).1 (trimFillers (trimFillers (cut p).2).dropLast) := by
  rcases hcut : cut p with ⟨start, ps⟩
  rw [parent?, hcut] at h
  simp only at h ⊢
  split at h
  · split at h
    · exact .inl (Option.some.inj h).symm
    · cases h
  · exact .inr (Option.some.inj h).symm

/-- The parent of a path starts where the path does and leads one step less far. -/
theorem components_of_parent? (h : parent? p = some q) (hq : q ≠ "") :
    isAbsolute q = isAbsolute p ∧
      (pieces q).filterMap ofPiece? = ((pieces p).filterMap ofPiece?).dropLast := by
  obtain rfl := (eq_of_parent? h).resolve_left hq
  have hslash : ∀ s ∈ trimFillers (trimFillers (cut p).2).dropLast, '/' ∉ s.toList := fun s hs =>
    slash_notMem_of_mem_cut (mem_of_mem_trimFillers
      (List.dropLast_subset _ (mem_of_mem_trimFillers hs)))
  have hfirst : ∀ s, (trimFillers (trimFillers (cut p).2).dropLast).head? = some s →
      (cut p).2.head? = some s := by
    intro s hs
    have hinit : ((trimFillers (cut p).2).dropLast).head? = some s := head?_of_head?_trimFillers hs
    obtain ⟨rest, hrest⟩ := List.head?_eq_some_iff.mp hinit
    obtain ⟨last, hlast⟩ := List.dropLast_prefix (trimFillers (cut p).2)
    refine head?_of_head?_trimFillers ?_
    rw [← hlast, hrest]
    rfl
  have hhead : (cut p).1 = .plain →
      (trimFillers (trimFillers (cut p).2).dropLast).head? ≠ some "" ∧
        (trimFillers (trimFillers (cut p).2).dropLast).head? ≠ some "." := fun hplain =>
    ⟨fun hs => (head?_of_plain hplain).1 (hfirst _ hs),
      fun hs => (head?_of_plain hplain).2 (hfirst _ hs)⟩
  have hcut := cut_assemble hslash hhead
  constructor
  · rw [Bool.eq_iff_iff, isAbsolute_iff_cut, isAbsolute_iff_cut, hcut]
  · have hcomponents := components_assemble hslash hhead
    rw [components, hcut, List.append_cancel_left_eq, filterMap_cut] at hcomponents
    rw [hcomponents, filterMap_trimFillers, filterMap_dropLast_trimFillers, filterMap_cut]

/-- The pieces that count are the texts of the components. -/
theorem filter_not_isFiller (ps : List String) :
    ps.filter (!isFiller ·) = (ps.filterMap ofPiece?).map componentText := by
  induction ps with
  | nil => rfl
  | cons s ps ih =>
    cases hs : ofPiece? s with
    | none => rw [List.filter_cons_of_neg (by simp [isFiller, hs]), List.filterMap_cons_none hs, ih]
    | some c =>
      rw [List.filter_cons_of_pos (by simp [isFiller, hs]), List.filterMap_cons_some hs,
        List.map_cons, ih]
      rcases ofPiece?_eq_some hs with rfl | ⟨rfl, rfl⟩ <;> rfl

theorem slash_or_mem_of_mem_slashed {c : Char} (h : c ∈ (slashed ps).toList) :
    c = '/' ∨ ∃ s ∈ ps, c ∈ s.toList := by
  induction ps with
  | nil => exact absurd h (by simp [slashed])
  | cons s ps ih =>
    cases ps with
    | nil => exact .inr ⟨s, List.mem_cons_self, by simpa [slashed] using h⟩
    | cons t ps =>
      have hcons : slashed (s :: t :: ps) = s ++ "/" ++ slashed (t :: ps) :=
        String.intercalate_cons_cons
      have hslash : "/".toList = ['/'] := rfl
      rw [hcons, String.toList_append, String.toList_append, hslash, List.mem_append,
        List.mem_append, List.mem_singleton] at h
      rcases h with (hs | rfl) | hrest
      · exact .inr ⟨s, List.mem_cons_self, hs⟩
      · exact .inl rfl
      · rcases ih hrest with hc | ⟨u, hu, hc⟩
        · exact .inl hc
        · exact .inr ⟨u, List.mem_cons_of_mem s hu, hc⟩

theorem mem_pieces_of_mem_cut {s : String} (h : s ∈ (cut p).2) : s ∈ pieces p := by
  unfold cut at h
  split at h
  next rest hp =>
    rw [hp]
    cases hr : isAbsolute p <;> simp only [hr] at h <;> exact List.mem_cons_of_mem _ h
  next rest hp =>
    rw [hp]
    exact List.mem_cons_of_mem _ h
  next => exact h

theorem mem_of_mem_pieces {s : String} {c : Char} (h : s ∈ pieces p) (hc : c ∈ s.toList) :
    c ∈ p.toList := by
  obtain ⟨l, hl, rfl⟩ := List.mem_map.mp h
  rw [String.toList_ofList] at hc
  exact Text.mem_of_mem_splitBy hl hc

/-- A path and its parent are made of the same characters. -/
theorem mem_of_mem_parent? {c : Char} (h : parent? p = some q) (hc : c ∈ q.toList) :
    c = '/' ∨ c = '.' ∨ c ∈ p.toList := by
  rcases eq_of_parent? h with rfl | rfl
  · exact absurd hc (by simp)
  have hinner (hc : c ∈ (slashed (trimFillers (trimFillers (cut p).2).dropLast)).toList) :
      c = '/' ∨ c = '.' ∨ c ∈ p.toList := by
    rcases slash_or_mem_of_mem_slashed hc with hslash | ⟨s, hs, hc⟩
    · exact .inl hslash
    · exact .inr (.inr (mem_of_mem_pieces (mem_pieces_of_mem_cut (mem_of_mem_trimFillers
        (List.dropLast_subset _ (mem_of_mem_trimFillers hs)))) hc))
  generalize hps : trimFillers (trimFillers (cut p).2).dropLast = ps at hinner hc
  generalize (cut p).1 = start at hc
  have hslash : "/".toList = ['/'] := rfl
  have hpoint : "./".toList = ['.', '/'] := rfl
  cases start with
  | plain => exact hinner hc
  | root =>
    rw [assemble, String.toList_append, hslash, List.mem_append, List.mem_singleton] at hc
    exact hc.elim .inl hinner
  | here =>
    cases ps with
    | nil => exact .inr (.inl (by simpa [assemble] using hc))
    | cons s ps =>
      rw [assemble, String.toList_append, hpoint, List.mem_append, List.mem_cons,
        List.mem_singleton] at hc
      · rcases hc with (hc | hc) | hc
        · exact .inr (.inl hc)
        · exact .inl hc
        · exact hinner hc
      · exact List.cons_ne_nil s ps

end Path

namespace Files

variable {files files' : Files} {place found d pieces pieces' : List String} {path : String}

/-- Whether there is a directory at a place. -/
def HasDirectory (files : Files) (place : List String) : Prop :=
  ∃ t, files.entry? place = some (.directory t)

theorem walk_cons (piece : String) (h : files.HasDirectory place) :
    files.walk place (piece :: pieces) = match Path.ofPiece? piece with
      | some .up => files.walk place.dropLast pieces
      | some (.name s) =>
        if longestName < s.utf8ByteSize then .error .nameTooLong else files.walk (place ++ [s]) pieces
      | _ => files.walk place pieces := by
  obtain ⟨t, ht⟩ := h
  cases hp : Path.ofPiece? piece with
  | none => simp only [walk, ht, hp]
  | some c => cases c <;> simp only [walk, ht, hp]

theorem hasDirectory_of_walk_cons {piece : String}
    (h : files.walk place (piece :: pieces) = .ok found) : files.HasDirectory place := by
  rw [walk] at h
  split at h
  · cases h
  · cases h
  next t ht => exact ⟨t, ht⟩

/-- A walk to a directory starts from one. -/
theorem hasDirectory_of_walk (h : files.walk place pieces = .ok found)
    (hd : files.HasDirectory found) : files.HasDirectory place := by
  cases pieces with
  | nil => exact Except.ok.inj h ▸ hd
  | cons piece rest => exact hasDirectory_of_walk_cons h

theorem walk_append (h : files.walk place (pieces ++ pieces') = .ok found) :
    ∃ d, files.walk place pieces = .ok d ∧ files.walk d pieces' = .ok found := by
  induction pieces generalizing place with
  | nil => exact ⟨place, rfl, h⟩
  | cons piece rest ih =>
    have hd : files.HasDirectory place := hasDirectory_of_walk_cons h
    rw [List.cons_append, walk_cons piece hd] at h
    rw [walk_cons piece hd]
    split at h
    · exact ih h
    · split at h
      · exact absurd h nofun
      next hlong =>
        rw [if_neg hlong]
        exact ih h
    · exact ih h

theorem walk_filler {piece : String} (hf : Path.isFiller piece = true)
    (h : files.HasDirectory place) :
    files.walk place (piece :: pieces) = files.walk place pieces := by
  rw [walk_cons piece h, Path.isFiller_iff.mp hf]

/-- Where a walk leads to a directory, only the pieces that count matter. -/
theorem walk_filter (hd : files.HasDirectory found) :
    files.walk place (pieces.filter (!Path.isFiller ·)) = .ok found ↔
      files.walk place pieces = .ok found := by
  induction pieces generalizing place with
  | nil => rfl
  | cons piece rest ih =>
    cases hf : Path.isFiller piece with
    | true =>
      -- A filler can fail too, but then there is no directory that the rest of the walk could end in.
      rw [List.filter_cons_of_neg (by simp [hf]), ih]
      constructor
      · intro h
        rw [walk_filler hf (hasDirectory_of_walk h hd)]
        exact h
      · intro h
        rwa [walk_filler hf (hasDirectory_of_walk_cons h)] at h
    | false =>
      rw [List.filter_cons_of_pos (by simp [hf])]
      by_cases hplace : files.HasDirectory place
      · rw [walk_cons piece hplace, walk_cons piece hplace]
        split
        · exact ih
        · split
          · rfl
          · exact ih
        · exact ih
      · exact iff_of_false (fun h => hplace (hasDirectory_of_walk_cons h))
          fun h => hplace (hasDirectory_of_walk_cons h)

theorem walk_congr (he : pieces'.filterMap Path.ofPiece? = pieces.filterMap Path.ofPiece?)
    (h : files.walk place pieces = .ok found) (hd : files.HasDirectory found) :
    files.walk place pieces' = .ok found := by
  rw [← walk_filter hd, Path.filter_not_isFiller] at h ⊢
  rw [he]
  exact h

/-- Only a directory is found at the end of a path that goes on after the last name. -/
theorem counts_of_walk {last : String} (h : files.walk place [last] = .ok found)
    (hfile : ¬files.HasDirectory found) : ∃ c, Path.ofPiece? last = some c := by
  have hplace : files.HasDirectory place := hasDirectory_of_walk_cons h
  cases hlast : Path.ofPiece? last with
  | some c => exact ⟨c, rfl⟩
  | none =>
    rw [walk_filler (Path.isFiller_iff.mpr hlast) hplace] at h
    exact absurd (Except.ok.inj h ▸ hplace) hfile

/-- What is no directory lies in one. -/
theorem isDirectory_parent {e : Entry} {parent : String} (h : files.stat path = .ok e)
    (hfile : e.isDirectory = false) (hp : Path.parent? path = some parent) (hne : parent ≠ "") :
    files.isDirectory parent = true := by
  obtain ⟨place, hl, he⟩ := stat_eq_ok.mp h
  have hplace : ¬files.HasDirectory place := by
    rintro ⟨t, ht⟩
    obtain rfl := Option.some.inj (he.symm.trans ht)
    exact absurd hfile (by simp [Entry.isDirectory])
  obtain ⟨habsolute, hpieces⟩ := Path.components_of_parent? hp hne
  obtain ⟨before, last, hlast⟩ : ∃ before last, Path.pieces path = before ++ [last] := by
    rcases List.eq_nil_or_concat (Path.pieces path) with hnil | ⟨before, last, hps⟩
    · exact absurd hnil (Path.pieces_ne_nil path)
    · exact ⟨before, last, by simpa using hps⟩
  unfold locate locatePieces at hl
  split at hl
  · exact absurd hl nofun
  next hnul =>
    split at hl
    · exact absurd hl nofun
    next hempty =>
      rw [hlast] at hl
      -- The last piece is the file's name, and the pieces before it lead to the directory.
      obtain ⟨d, hbefore, hend⟩ := walk_append hl
      obtain ⟨c, hc⟩ := counts_of_walk hend hplace
      obtain ⟨t, ht⟩ : files.HasDirectory d := hasDirectory_of_walk_cons hend
      rw [hlast, List.filterMap_append, List.filterMap_cons_some hc, List.filterMap_nil,
        List.dropLast_concat] at hpieces
      have hparent : files.locate parent = .ok d := by
        have hnul' : ¬parent.toList.contains '\x00' = true := by
          simp only [List.contains_iff_mem] at hnul ⊢
          intro hmem
          rcases Path.mem_of_mem_parent? hp hmem with hc | hc | hc
          · exact absurd hc (by decide)
          · exact absurd hc (by decide)
          · exact hnul hc
        have hempty' : ¬parent.isEmpty = true := by simpa using hne
        rw [locate, locatePieces, if_neg hnul', if_neg hempty', habsolute]
        exact walk_congr hpieces hbefore ⟨t, ht⟩
      have hstat : files.stat parent = .ok (.directory t) := stat_eq_ok.mpr ⟨d, hparent, ht⟩
      rw [isDirectory, hstat]
      rfl

theorem exists_makeDirectories (h : path = "" ∨ files.isDirectory path = true) :
    ∃ made, files.makeDirectories path = .ok made := by
  unfold makeDirectories makeDirectoriesWithin
  split
  · exact ⟨files, rfl⟩
  next hempty =>
    have hdirectory : files.isDirectory path = true :=
      h.resolve_left fun he => hempty (by rw [he]; rfl)
    have hensure : ∃ made, files.ensureDirectory path = .ok made := by
      unfold ensureDirectory
      split
      next made _ => exact ⟨made, rfl⟩
      · exact ⟨files, by rw [if_pos hdirectory]⟩
    obtain ⟨made, hmade⟩ := hensure
    exact ⟨made, by rw [hmade]⟩

/-- A file that is there can be written. -/
theorem exists_write {content old : Content} {t : Nat} (h : files.stat path = .ok (.file old t)) :
    ∃ files', files.write path content = .ok files' := by
  obtain ⟨place, hl, he⟩ := stat_eq_ok.mp h
  have hwritten : files.writeAt path content files.clock =
      .ok (files.put place (.file content files.clock)) := by
    refine bind_eq_ok.mpr ⟨place, hl, ?_⟩
    rw [he]
    rfl
  exact ⟨_, bind_eq_ok.mpr ⟨_, hwritten, rfl⟩⟩

end Files

/-- Whether a line holds nothing or a comment. -/
def Yaml.isCommentLine (line : List Char) : Bool :=
  (line.dropWhile (· = ' ')).head?.all (· = '#')

namespace DataFile

variable {files : Files} {path text : String} {f : DataFile}

theorem exists_makeParent {content : Content} {t : Nat}
    (h : files.stat path = .ok (.file content t)) :
    ∃ made, makeParent files path = .ok made ∧ files.Sprouts made := by
  unfold makeParent
  split
  · exact ⟨files, rfl, .refl files⟩
  next parent hp =>
    have hdirectory : parent = "" ∨ files.isDirectory parent = true := by
      by_cases hne : parent = ""
      · exact .inl hne
      · exact .inr (Files.isDirectory_parent h rfl hp hne)
    obtain ⟨made, hm⟩ := Files.exists_makeDirectories hdirectory
    rw [hm]
    exact ⟨made, rfl, Files.sprouts_makeDirectories hm⟩

/-- There is room for a file where one has been read. -/
theorem exists_save (h : files.readText f.path = .ok text) :
    ∃ files', f.save files = .ok files' := by
  obtain ⟨content, hread, -⟩ := bind_eq_ok.mp h
  obtain ⟨e, hstat, he⟩ := bind_eq_ok.mp hread
  cases e with
  | directory t => exact absurd he nofun
  | file old t =>
    obtain ⟨made, hmade, hsprouts⟩ := exists_makeParent hstat
    have hstat' := hsprouts.gains.stat hsprouts.workDir hstat
    obtain ⟨files', hwrite⟩ : ∃ files', made.write f.path (.text f.text) = .ok files' :=
      Files.exists_write hstat'
    refine ⟨files', bind_eq_ok.mpr ⟨made, hmade, ?_⟩⟩
    rw [hwrite]

/-- A change of the data in memory. -/
inductive Edit
  | set (key : String) (v : Value)
  | erase (key : String)

def Edit.isData : Edit → Bool
  | .set _ v => v.isData
  | .erase _ => true

def edit (f : DataFile) : Edit → DataFile
  | .set key v => f.set key v
  | .erase key => f.erase key

def edited (f : DataFile) (es : List Edit) : DataFile := es.foldl edit f

/-- What an edit leaves as it is: where the file is and what stands before its data. -/
theorem edit_frame (f : DataFile) (e : Edit) :
    (f.edit e).path = f.path ∧ (f.edit e).header = f.header := by
  cases e <;> exact ⟨rfl, rfl⟩

theorem isData_edit (h : f.isData = true) {e : Edit} (he : e.isData = true) :
    (f.edit e).isData = true := by
  cases e with
  | set key v => exact isData_set h he key
  | erase key => exact isData_erase h key

theorem edited_frame (f : DataFile) (es : List Edit) :
    (f.edited es).path = f.path ∧ (f.edited es).header = f.header := by
  induction es generalizing f with
  | nil => exact ⟨rfl, rfl⟩
  | cons e es ih =>
    obtain ⟨hpath, hheader⟩ := ih (f.edit e)
    obtain ⟨hpath', hheader'⟩ := edit_frame f e
    exact ⟨hpath.trans hpath', hheader.trans hheader'⟩

theorem isData_edited (h : f.isData = true) {es : List Edit} (hes : ∀ e ∈ es, e.isData = true) :
    (f.edited es).isData = true := by
  induction es generalizing f with
  | nil => exact h
  | cons e es ih =>
    exact ih (isData_edit h (hes e List.mem_cons_self)) fun e' he' =>
      hes e' (List.mem_cons_of_mem e he')

/-- Whether the header is nothing but comments to YAML, which ends lines at more characters and takes
fewer for blanks. -/
def hasCommentHeader (f : DataFile) : Bool :=
  (Text.splitBy Yaml.isBreak f.header.toList).all Yaml.isCommentLine

variable {es : List Edit}

/-- A file that has been read and edited can be saved. What is read then has the data that was saved,
and it has the header and the facts as well if and only if the file keeps its header. -/
theorem save_edited_lossless_iff (hread : files.readText path = .ok text)
    (hparse : parse path text = .ok f) (hdata : ∀ e ∈ es, e.isData = true)
    (hyaml : (f.edited es).hasCommentHeader = true → (f.edited es).ReadsBack) :
    ∃ files', (f.edited es).save files = .ok files' ∧
      ((f.edited es).hasCommentHeader = true →
        ∃ g, DataFile.open files' path = .ok (some g) ∧ g.data = (f.edited es).data ∧
          (g.header = (f.edited es).header ∧ g.factOverrides = (f.edited es).factOverrides ↔
            (f.edited es).keepsHeader)) := by
  obtain ⟨hpath, hheader⟩ := edited_frame f es
  have hplace : (f.edited es).path = path := hpath.trans (path_of_parse hparse)
  obtain ⟨files', hsave⟩ : ∃ files', (f.edited es).save files = .ok files' :=
    exists_save (hplace.symm ▸ hread)
  refine ⟨files', hsave, fun hcomments => ?_⟩
  have hback := parse_of_readsBack (hyaml hcomments)
    (isData_edited (isData_of_parse hparse) hdata) path
  have hopen : DataFile.open files' path =
      .ok (some ⟨path, headerOf (f.edited es).text, (f.edited es).data⟩) := by
    have hsaved := open_of_save hsave
    rw [hplace, hback] at hsaved
    exact hsaved
  refine ⟨_, hopen, rfl, ?_⟩
  rw [← headerOf_text_iff (hheader.trans (header_of_parse hparse))]
  constructor
  · intro h
    exact h.1
  · intro h
    exact ⟨h, by simp only [factOverrides, h]⟩

/-- A tree with nothing but a data file in it. -/
def alone (text : String) : Files := ⟨[(["node.yaml"], .file (.text text) 0)], [], 1⟩

/-- A file with a fact, of which one key is set anew, one is removed and one is added. -/
theorem save_commented_lossless : ∃ f files', parse "node.yaml" "# role = \"db\"\nport: 1\nhost: a\n" =
      .ok f ∧ (f.edited [.set "port" (.integer 80), .erase "host", .set "tags" (.array [])]).save
        (alone "# role = \"db\"\nport: 1\nhost: a\n") = .ok files' ∧
      ∃ g, DataFile.open files' "node.yaml" = .ok (some g) ∧ g.header = "# role = \"db\"\n" ∧
        g.data = [("port", .integer 80), ("tags", .array [])] := by
  let f : DataFile := ⟨"node.yaml", "# role = \"db\"\n", [("port", .integer 1), ("host", .string "a")]⟩
  let es : List Edit := [.set "port" (.integer 80), .erase "host", .set "tags" (.array [])]
  have hparse : parse "node.yaml" f.text = .ok f := by
    have hheader : headerOf f.text = f.header := by decide +kernel
    have hback := parse_of_readsBack (f := f) (.of_readsBack (by decide +kernel)) rfl "node.yaml"
    rwa [hheader] at hback
  have hread : (alone f.text).readText "node.yaml" = .ok f.text := rfl
  have hdata : ∀ e ∈ es, e.isData = true := by decide
  obtain ⟨files', hsave, hopen⟩ := save_edited_lossless_iff hread hparse hdata
    fun _ => .of_readsBack (by decide +kernel)
  obtain ⟨g, hg, hsame, hheader⟩ := hopen (by decide +kernel)
  have hkeeps := hheader.mpr ⟨by decide +kernel, by decide +kernel⟩
  exact ⟨f, files', hparse, hsave, g, hg, hkeeps.1, hsame⟩

/-- What a data file that is alone in its tree is read as when it has been read and saved. -/
def reopened (text : String) : Except HierarchyError (Except HierarchyError (Option DataFile)) := do
  let f ← parse "node.yaml" text
  let files ← f.save (alone text)
  return DataFile.open files "node.yaml"

/-- YAML ends a line at a lone carriage return, which the header goes on after. The data behind it is
written a second time, and the file cannot be read any more. -/
theorem save_return_not_lossless : ∃ f files' e, parse "node.yaml" "# note\rport: 123\r" = .ok f ∧
    f.save (alone "# note\rport: 123\r") = .ok files' ∧
      DataFile.open files' "node.yaml" = .error e := by
  have hrun : (reopened "# note\rport: 123\r").toOption.any (!·.isOk) = true := by decide +kernel
  cases hq : reopened "# note\rport: 123\r" with
  | error e =>
    rw [hq] at hrun
    exact absurd hrun Bool.false_ne_true
  | ok q =>
    rw [hq] at hrun
    obtain ⟨f, hparse, hrest⟩ := bind_eq_ok.mp hq
    obtain ⟨files', hsave, hopen⟩ := bind_eq_ok.mp hrest
    cases q with
    | ok g => exact absurd hrun Bool.false_ne_true
    | error e => exact ⟨f, files', e, hparse, hsave, Except.ok.inj hopen⟩

end DataFile
end Cascade
