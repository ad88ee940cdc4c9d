import Cascade.Build.Layout
import Cascade.Proofs.Extensions
import Cascade.Proofs.Name
/-!
Where the sources of definitions are looked for. A name leads down from the module tree by its segments,
so it stays in the tree, and the path tells the segments again. The artifact lies below the cache by the
same names, with another extension.
-/
namespace Cascade

namespace Path

variable {base p stem ext : String} {dirs dirs' : List String}

/-- `p` leads from the directory `base` down to a file of this name, each step to an entry of a
directory. -/
def LeadsDown (base p : String) (dirs : List String) (file : String) : Prop :=
  (∀ s ∈ dirs ++ [file], IsName s) ∧ components p = components base ++ (dirs ++ [file]).map .name

theorem LeadsDown.fileName? {file : String} (h : LeadsDown base p dirs file) :
    fileName? p = some file := by
  rw [fileName?_eq_some, h.2, List.map_append, ← List.append_assoc]
  exact List.getLast?_concat

/-- A path down to a file keeps its directories when the file gets another extension. -/
theorem LeadsDown.withExtension {file : String} (h : LeadsDown base p dirs file) (ext : String)
    (hlen : 1 < ext.length) (hext : '/' ∉ ext.toList) :
    LeadsDown base (withExtension ext p) dirs ((splitExtension file).1 ++ "." ++ ext) := by
  have hfile : IsName file := h.1 file (List.mem_append_right _ List.mem_cons_self)
  have hnew : IsName ((splitExtension file).1 ++ "." ++ ext) := by
    refine ⟨?_, ofPiece?_of_length ?_⟩
    · have hstem := slash_notMem_splitExtension hfile.1
      simp [String.toList_append, hstem, hext]
    · have hpoint : ".".length = 1 := rfl
      simp only [String.length_append, hpoint]
      omega
  constructor
  · intro s hs
    rcases List.mem_append.mp hs with hs | hs
    · exact h.1 s (List.mem_append_left _ hs)
    · exact List.mem_singleton.mp hs ▸ hnew
  · rw [components_withExtension hlen hext h.fileName?, h.2, List.map_append, ← List.append_assoc,
      List.map_singleton, List.dropLast_concat, List.map_append, List.append_assoc,
      List.map_singleton]

theorem LeadsDown.extension? (h : LeadsDown base p dirs (stem ++ "." ++ ext)) (hne : stem ≠ "")
    (hstem : '.' ∉ stem.toList) (hext : '.' ∉ ext.toList) : extension? p = some ext := by
  rw [Path.extension?, h.fileName?, Option.bind_some, splitExtension_append hne hstem hext]

/-- What leads down to a file below a directory leads on from any other one. -/
theorem LeadsDown.exists_stripBase? {file : String} (h : LeadsDown base p dirs file)
    (other : String) : ∃ rest, stripBase? base p = some rest ∧
      LeadsDown other (join other rest) dirs file := by
  have hprefix : components base <+: components p := h.2 ▸ List.prefix_append _ _
  obtain ⟨rest, hrest⟩ := Path.exists_stripBase? hprefix
  have hstart : base = "" → (cut p).1 = .plain := by
    rintro rfl
    have hp : components p = (dirs ++ [file]).map .name := h.2
    cases dirs with
    | nil => exact plain_of_components hp
    | cons d dirs => exact plain_of_components hp
  obtain ⟨hplain, hcomponents⟩ := components_of_stripBase?_plain hrest hstart
  rw [h.2, List.append_cancel_left_eq] at hcomponents
  exact ⟨rest, hrest, h.1, by rw [components_join other hplain, ← hcomponents]⟩

/-- A place below a directory tells the names that lead to it. -/
theorem LeadsDown.eq {p' file file' : String} (h : LeadsDown base p dirs file)
    (h' : LeadsDown base p' dirs' file') :
    components p = components p' ↔ dirs = dirs' ∧ file = file' := by
  rw [h.2, h'.2, List.append_cancel_left_eq]
  constructor
  · intro he
    have hnames := (Function.Injective.list_map fun _ _ => Component.name.inj) he
    obtain ⟨hdirs, hfile⟩ := List.append_inj' hnames rfl
    exact ⟨hdirs, List.head_eq_of_cons_eq hfile⟩
  · rintro ⟨rfl, rfl⟩
    rfl

end Path

namespace Build.Layout

open Cascade.Path (LeadsDown)

variable {l : Layout} {name name' p p' segment module module' kind kind' : String}
  {segments rest rest' : List String}

theorem isSafeSegment_iff : isSafeSegment segment = true ↔
    segment ≠ "" ∧ '/' ∉ segment.toList ∧ '\\' ∉ segment.toList ∧ '.' ∉ segment.toList := by
  simp only [isSafeSegment, Bool.and_eq_true, Bool.not_eq_true', List.any_eq_false,
    Bool.or_eq_true, decide_eq_true_eq, not_or, String.isEmpty_eq_false_iff]
  constructor
  · rintro ⟨hne, hall⟩
    exact ⟨hne, fun h => (hall _ h).1.1 rfl, fun h => (hall _ h).1.2 rfl, fun h => (hall _ h).2 rfl⟩
  · rintro ⟨hne, hslash, hback, hpoint⟩
    refine ⟨hne, fun c hc => ⟨⟨?_, ?_⟩, ?_⟩⟩ <;> rintro rfl <;> contradiction

theorem isName_of_isSafeSegment (h : isSafeSegment segment = true) : Path.IsName segment := by
  obtain ⟨hne, hslash, -, hpoint⟩ := isSafeSegment_iff.mp h
  obtain ⟨c, cs, hcs⟩ := List.exists_cons_of_ne_nil (mt String.toList_eq_nil_iff.mp hne)
  have hc : c ∈ segment.toList := hcs ▸ List.mem_cons_self
  exact ⟨hslash, Path.ofPiece?_of_mem hc fun he => hpoint (he ▸ hc)⟩

theorem segments?_eq_some : segments? name = some segments ↔
    (Name.segments name).map Name.foldCase = segments ∧
      ∀ s ∈ segments, isSafeSegment s = true := by
  unfold segments?
  dsimp only
  split
  next h =>
    rw [Option.some.injEq]
    exact ⟨fun he => ⟨he, he ▸ List.all_eq_true.mp h⟩, And.left⟩
  next h =>
    refine ⟨nofun, ?_⟩
    rintro ⟨rfl, hall⟩
    exact absurd (List.all_eq_true.mpr hall) h

theorem segments?_normalize (name : String) : segments? (Name.normalize name) = segments? name := by
  have hfold : (Name.segments (Name.normalize name)).map Name.foldCase =
      (Name.segments name).map Name.foldCase := by
    rw [Name.segments_normalize, List.map_map]
    exact List.map_congr_left fun s _ => Name.foldCase_foldCase s
  rw [segments?, segments?, hfold]

theorem normalize_of_segments? (h : segments? name = some segments) :
    Name.normalize name = "::".intercalate segments := by
  rw [Name.normalize_eq_intercalate, (segments?_eq_some.mp h).1]

/-- Names that have segments have the same ones just if they are kept under one form. -/
theorem segments?_eq_iff (h : segments? name = some segments) :
    segments? name' = some segments ↔ Name.normalize name' = Name.normalize name := by
  constructor
  · intro h'
    rw [normalize_of_segments? h, normalize_of_segments? h']
  · intro he
    rw [← segments?_normalize, he, segments?_normalize, h]

/-- A source leads down by its segments and the directory of its kind. -/
theorem exists_leadsDown_sourceAt (l : Layout) (hkind : Path.IsName kind) (hne : rest ≠ [])
    (hsafe : ∀ s ∈ module :: rest, isSafeSegment s = true) : ∃ between stem,
      rest = between ++ [stem] ∧ isSafeSegment stem = true ∧
        LeadsDown l.modules (l.sourceAt module kind rest) (module :: kind :: between)
          (stem ++ "." ++ sourceExtension) := by
  obtain ⟨between, stem, rfl⟩ : ∃ between stem, rest = between ++ [stem] := by
    rcases List.eq_nil_or_concat rest with hnil | ⟨between, stem, hconcat⟩
    · exact absurd hnil hne
    · exact ⟨between, stem, by simpa using hconcat⟩
  have hnames : ∀ s ∈ module :: kind :: between ++ [stem], Path.IsName s := by
    intro s hs
    rw [List.cons_append, List.cons_append, List.mem_cons, List.mem_cons] at hs
    rcases hs with rfl | rfl | hs
    · exact isName_of_isSafeSegment (hsafe s List.mem_cons_self)
    · exact hkind
    · exact isName_of_isSafeSegment (hsafe s (List.mem_cons_of_mem _ hs))
  have hdown : LeadsDown l.modules
      ((module :: kind :: between ++ [stem]).foldl Path.join l.modules)
      (module :: kind :: between) stem := ⟨hnames, Path.components_foldl_join hnames _⟩
  have hstem : isSafeSegment stem = true := hsafe stem (by simp)
  have hsource := hdown.withExtension sourceExtension (by decide) (by decide)
  rw [Path.splitExtension_of_point_notMem (isSafeSegment_iff.mp hstem).2.2.2] at hsource
  exact ⟨between, stem, rfl, hstem, hsource⟩

/-- The artifact of a source leads down from the cache as the source does from the modules. -/
theorem exists_artifact_of_leadsDown {dirs : List String} {stem : String}
    (h : LeadsDown l.modules p dirs (stem ++ "." ++ sourceExtension))
    (hstem : isSafeSegment stem = true) : ∃ artifact, l.artifactFor? p = some artifact ∧
      LeadsDown l.cache artifact dirs (stem ++ "." ++ artifactExtension) := by
  obtain ⟨hne, -, -, hpoint⟩ := isSafeSegment_iff.mp hstem
  obtain ⟨rest, hrest, hdown⟩ := h.exists_stripBase? l.cache
  refine ⟨_, by rw [artifactFor?, hrest, Option.map_some], ?_⟩
  have hartifact := hdown.withExtension artifactExtension (by decide) (by decide)
  rwa [Path.splitExtension_append hne hpoint (by decide)] at hartifact

/-- The place of a source tells all that it was put together from. -/
theorem components_sourceAt_iff (hkind : Path.IsName kind) (hkind' : Path.IsName kind')
    (hne : rest ≠ []) (hne' : rest' ≠ []) (hsafe : ∀ s ∈ module :: rest, isSafeSegment s = true)
    (hsafe' : ∀ s ∈ module' :: rest', isSafeSegment s = true) :
    Path.components (l.sourceAt module kind rest) =
        Path.components (l.sourceAt module' kind' rest') ↔
      kind = kind' ∧ module :: rest = module' :: rest' := by
  obtain ⟨between, stem, rfl, -, hdown⟩ := exists_leadsDown_sourceAt l hkind hne hsafe
  obtain ⟨between', stem', rfl, -, hdown'⟩ := exists_leadsDown_sourceAt l hkind' hne' hsafe'
  rw [hdown.eq hdown']
  constructor
  · rintro ⟨hdirs, hfile⟩
    simp only [List.cons.injEq] at hdirs
    obtain ⟨rfl, rfl, rfl⟩ := hdirs
    have hstem : stem = stem' := by simpa using hfile
    exact ⟨rfl, hstem ▸ rfl⟩
  · rintro ⟨rfl, hnames⟩
    obtain ⟨rfl, hrest⟩ := List.cons.inj hnames
    obtain ⟨rfl, hstem⟩ := List.append_inj' hrest rfl
    exact ⟨rfl, List.head_eq_of_cons_eq hstem ▸ rfl⟩

/-- What follows the module in the place of a class. -/
def classParts (rest : List String) : List String := if rest = [] then ["init"] else rest

theorem classParts_ne_nil (rest : List String) : classParts rest ≠ [] := by
  unfold classParts
  split
  · exact List.cons_ne_nil _ _
  next h => exact h

theorem isSafeSegment_of_mem_classParts (h : ∀ s ∈ module :: rest, isSafeSegment s = true) :
    ∀ s ∈ module :: classParts rest, isSafeSegment s = true := by
  unfold classParts
  split
  · have hinit : isSafeSegment "init" = true := by decide
    intro s hs
    rcases List.mem_cons.mp hs with rfl | hs
    · exact h s List.mem_cons_self
    · exact List.mem_singleton.mp hs ▸ hinit
  · exact h

theorem classParts_eq_iff : classParts rest = classParts rest' ↔
    rest = rest' ∨ rest = [] ∧ rest' = ["init"] ∨ rest = ["init"] ∧ rest' = [] := by
  unfold classParts
  by_cases h : rest = [] <;> by_cases h' : rest' = [] <;> simp [h, h', eq_comm]

theorem classSource?_eq_some : l.classSource? name = some p ↔ ∃ module rest,
    segments? name = some (module :: rest) ∧
      p = l.sourceAt module "manifests" (classParts rest) := by
  unfold classSource?
  rcases segments? name with _ | _ | ⟨module, _ | ⟨part, rest⟩⟩ <;>
    simp [classParts, eq_comm]

theorem functionSource?_eq_some : l.functionSource? name = some p ↔ ∃ module rest,
    segments? name = some (module :: rest) ∧ rest ≠ [] ∧
      p = l.sourceAt module "functions" rest := by
  unfold functionSource?
  rcases segments? name with _ | _ | ⟨module, _ | ⟨part, rest⟩⟩ <;> simp [eq_comm]

theorem isName_manifests : Path.IsName "manifests" := by decide

theorem isName_functions : Path.IsName "functions" := by decide

/-- A source that is looked for by a name lies below the modules, and its artifact below the cache. -/
theorem exists_places (l : Layout) (hkind : Path.IsName kind) (hne : rest ≠ [])
    (hsafe : ∀ s ∈ module :: rest, isSafeSegment s = true) : ∃ dirs stem artifact,
      LeadsDown l.modules (l.sourceAt module kind rest) dirs (stem ++ "." ++ sourceExtension) ∧
      Path.extension? (l.sourceAt module kind rest) = some sourceExtension ∧
      l.artifactFor? (l.sourceAt module kind rest) = some artifact ∧
      LeadsDown l.cache artifact dirs (stem ++ "." ++ artifactExtension) ∧
      Path.extension? artifact = some artifactExtension := by
  obtain ⟨between, stem, rfl, hstem, hdown⟩ := exists_leadsDown_sourceAt l hkind hne hsafe
  obtain ⟨artifact, hartifact, hbelow⟩ := exists_artifact_of_leadsDown hdown hstem
  obtain ⟨hempty, -, -, hpoint⟩ := isSafeSegment_iff.mp hstem
  exact ⟨module :: kind :: between, stem, artifact, hdown,
    hdown.extension? hempty hpoint (by decide), hartifact, hbelow,
    hbelow.extension? hempty hpoint (by decide)⟩

/-- The sources of two names are at one place only if the names have the same segments, but for that
of a module and the class `init` in it. -/
theorem segments?_of_classSource? (h : l.classSource? name = some p)
    (h' : l.classSource? name' = some p')
    (hsame : Path.components p = Path.components p') :
    segments? name = segments? name' ∨ ∃ module,
      segments? name = some [module] ∧ segments? name' = some [module, "init"] ∨
        segments? name = some [module, "init"] ∧ segments? name' = some [module] := by
  obtain ⟨module, rest, hs, rfl⟩ := classSource?_eq_some.mp h
  obtain ⟨module', rest', hs', rfl⟩ := classSource?_eq_some.mp h'
  have hsafe := isSafeSegment_of_mem_classParts (segments?_eq_some.mp hs).2
  have hsafe' := isSafeSegment_of_mem_classParts (segments?_eq_some.mp hs').2
  rw [components_sourceAt_iff isName_manifests isName_manifests (classParts_ne_nil rest)
    (classParts_ne_nil rest') hsafe hsafe'] at hsame
  obtain ⟨rfl, hparts⟩ := List.cons.inj hsame.2
  rcases classParts_eq_iff.mp hparts with rfl | ⟨rfl, rfl⟩ | ⟨rfl, rfl⟩
  · exact .inl (hs.trans hs'.symm)
  · exact .inr ⟨module, .inl ⟨hs, hs'⟩⟩
  · exact .inr ⟨module, .inr ⟨hs, hs'⟩⟩

theorem components_functionSource?_iff (h : l.functionSource? name = some p)
    (h' : l.functionSource? name' = some p') :
    Path.components p = Path.components p' ↔ Name.normalize name = Name.normalize name' := by
  obtain ⟨module, rest, hs, hne, rfl⟩ := functionSource?_eq_some.mp h
  obtain ⟨module', rest', hs', hne', rfl⟩ := functionSource?_eq_some.mp h'
  rw [components_sourceAt_iff isName_functions isName_functions hne hne'
    (segments?_eq_some.mp hs).2 (segments?_eq_some.mp hs').2, ← segments?_eq_iff hs', hs,
    Option.some.injEq]
  exact and_iff_right rfl

/-- The place of a class is never that of a function. -/
theorem components_ne_of_classSource? (h : l.classSource? name = some p)
    (h' : l.functionSource? name' = some p') : Path.components p ≠ Path.components p' := by
  obtain ⟨module, rest, hs, rfl⟩ := classSource?_eq_some.mp h
  obtain ⟨module', rest', hs', hne', rfl⟩ := functionSource?_eq_some.mp h'
  have hsafe := isSafeSegment_of_mem_classParts (segments?_eq_some.mp hs).2
  rw [ne_eq, components_sourceAt_iff isName_manifests isName_functions (classParts_ne_nil rest)
    hne' hsafe (segments?_eq_some.mp hs').2]
  exact fun hsame => absurd hsame.1 (by decide)

/-- Wherever a name is looked for, the path leads from the modules down to a source, and by the same
names from the cache down to its artifact. The place of a class is not that of a function. Functions
whose names are kept under different forms have different places, and so do classes, but for a module
and the class `init` in it. -/
theorem autoload_places (l : Layout) :
    (∀ name p, l.classSource? name = some p ∨ l.functionSource? name = some p →
      ∃ dirs stem artifact, LeadsDown l.modules p dirs (stem ++ "." ++ sourceExtension) ∧
        Path.extension? p = some sourceExtension ∧ l.artifactFor? p = some artifact ∧
        LeadsDown l.cache artifact dirs (stem ++ "." ++ artifactExtension) ∧
        Path.extension? artifact = some artifactExtension) ∧
    (∀ name name' p p', l.classSource? name = some p → l.functionSource? name' = some p' →
      Path.components p ≠ Path.components p') ∧
    (∀ name name' p p', l.functionSource? name = some p → l.functionSource? name' = some p' →
      (Path.components p = Path.components p' ↔ Name.normalize name = Name.normalize name')) ∧
    ∀ name name' p p', l.classSource? name = some p → l.classSource? name' = some p' →
      Path.components p = Path.components p' →
      Name.normalize name = Name.normalize name' ∨ ∃ m, segments? m = some [m] ∧
        (Name.normalize name = m ∧ Name.normalize name' = m ++ "::init" ∨
          Name.normalize name = m ++ "::init" ∧ Name.normalize name' = m) := by
  refine ⟨fun name p h => ?_, fun _ _ _ _ => components_ne_of_classSource?,
    fun _ _ _ _ => components_functionSource?_iff, fun name name' p p' h h' hsame => ?_⟩
  · rcases h with h | h
    · obtain ⟨module, rest, hs, rfl⟩ := classSource?_eq_some.mp h
      exact exists_places l isName_manifests (classParts_ne_nil rest)
        (isSafeSegment_of_mem_classParts (segments?_eq_some.mp hs).2)
    · obtain ⟨module, rest, hs, hne, rfl⟩ := functionSource?_eq_some.mp h
      exact exists_places l isName_functions hne (segments?_eq_some.mp hs).2
  · have hone (m name : String) (hs : segments? name = some [m]) :
        Name.normalize name = m ∧ segments? m = some [m] := by
      have hm : Name.normalize name = m := normalize_of_segments? hs
      exact ⟨hm, by rw [← hm, segments?_normalize, hs, hm]⟩
    have htwo (m name : String) (hs : segments? name = some [m, "init"]) :
        Name.normalize name = m ++ "::init" := by
      rw [normalize_of_segments? hs, String.intercalate_cons_cons, String.intercalate_singleton,
        String.append_assoc]
      rfl
    rcases segments?_of_classSource? h h' hsame with hs | ⟨m, ⟨hs, hs'⟩ | ⟨hs, hs'⟩⟩
    · obtain ⟨_, _, hsegments, -⟩ := classSource?_eq_some.mp h'
      exact .inl ((segments?_eq_iff hsegments).mp (hs.trans hsegments))
    · exact .inr ⟨m, (hone m name hs).2, .inl ⟨(hone m name hs).1, htwo m name' hs'⟩⟩
    · exact .inr ⟨m, (hone m name' hs').2, .inr ⟨htwo m name hs, (hone m name' hs').1⟩⟩

def environment : Layout := ⟨"env/modules", "env/artifacts"⟩

/-- A module and the class `init` in it are looked for at one place, and a function of that name is not. -/
theorem autoload_places_init :
    environment.classSource? "::Ntp" = some "env/modules/ntp/manifests/init.pp" ∧
    environment.classSource? "ntp::init" = some "env/modules/ntp/manifests/init.pp" ∧
    environment.functionSource? "ntp::init" = some "env/modules/ntp/functions/init.pp" ∧
    environment.functionSource? "::Ntp::INIT" = some "env/modules/ntp/functions/init.pp" ∧
    (∃ dirs stem artifact,
      LeadsDown "env/modules" "env/modules/ntp/manifests/init.pp" dirs (stem ++ ".pp") ∧
      environment.artifactFor? "env/modules/ntp/manifests/init.pp" = some artifact ∧
      LeadsDown "env/artifacts" artifact dirs (stem ++ ".json")) ∧
    Path.components "env/modules/ntp/manifests/init.pp" ≠
      Path.components "env/modules/ntp/functions/init.pp" ∧
    Name.normalize "ntp::init" = Name.normalize "::Ntp::INIT" ∧
    ∃ m, segments? m = some [m] ∧ Name.normalize "::Ntp" = m ∧
      Name.normalize "ntp::init" = m ++ "::init" := by
  have hmodule : environment.classSource? "::Ntp" = some "env/modules/ntp/manifests/init.pp" := by
    decide +kernel
  have hinit : environment.classSource? "ntp::init" = some "env/modules/ntp/manifests/init.pp" := by
    decide +kernel
  have hfunction : environment.functionSource? "ntp::init" =
      some "env/modules/ntp/functions/init.pp" := by decide +kernel
  have hfunction' : environment.functionSource? "::Ntp::INIT" =
      some "env/modules/ntp/functions/init.pp" := by decide +kernel
  obtain ⟨hplaces, hkinds, hfunctions, hclasses⟩ := autoload_places environment
  obtain ⟨dirs, stem, artifact, hsource, -, hartifact, hbelow, -⟩ := hplaces _ _ (.inl hmodule)
  refine ⟨hmodule, hinit, hfunction, hfunction', ?_, hkinds _ _ _ _ hmodule hfunction,
    (hfunctions _ _ _ _ hfunction hfunction').mp rfl, ?_⟩
  · have hpp : ".pp" = "." ++ sourceExtension := rfl
    have hjson : ".json" = "." ++ artifactExtension := rfl
    rw [hpp, hjson]
    simp only [← String.append_assoc]
    exact ⟨dirs, stem, artifact, hsource, hartifact, hbelow⟩
  · rcases hclasses _ _ _ _ hmodule hinit rfl with hsame | ⟨m, hm, ⟨h, h'⟩ | ⟨h, h'⟩⟩
    · exact absurd hsame (by decide +kernel)
    · exact ⟨m, hm, h, h'⟩
    · have hlong : (Name.normalize "::Ntp").toList.length <
          (Name.normalize "ntp::init").toList.length := by decide +kernel
      rw [h, h', String.toList_append, List.length_append] at hlong
      omega

end Build.Layout
end Cascade
