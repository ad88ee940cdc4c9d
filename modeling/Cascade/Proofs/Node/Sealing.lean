import Cascade.Proofs.Node.Bound
import Cascade.Proofs.Protection
/-!
What is written to a protected level. A property that is set there leaves the machine as if its
envelope had been set as it is, so of the value itself nothing is stored. Where there is no envelope,
because the key cannot be loaded or does not fit, the call fails and nothing changes.
-/
namespace Cascade

/-- `ENC[PKCS1-AES256GCM,<base64>]` -/
def IsEnvelope (s : String) : Prop :=
  ∃ body, s = "ENC[PKCS1-AES256GCM," ++ String.ofList (Text.Base64.encode body) ++ "]"

theorem Envelope.isEnvelope_of_encrypt {key : Rsa.PublicKey} {text envelope : String}
    {entropy entropy' : Entropy} (h : encrypt key text entropy = .ok (envelope, entropy')) :
    IsEnvelope envelope := by
  unfold encrypt at h
  split at h
  split at h
  split at h
  · exact absurd h nofun
  · obtain ⟨rfl, -⟩ := Prod.mk.inj (Except.ok.inj h)
    exact ⟨_, rfl⟩

/-- A disk on which a file that has been written holds what was written. -/
def Disk.Faithful (d : Disk) : Prop :=
  ∀ path text (files files' : Files), (d.write path text).run files = (.ok (), files') →
    files'.readText path = .ok text

theorem Disk.plain_faithful : plain.Faithful := by
  intro path text files files' h
  have hw : files.write path (.text text) = .ok files' := by
    change (Filing.ofStep (·.write path (.text text))).run files = _ at h
    unfold Filing.ofStep at h
    simp only [ExceptT.run] at h
    cases hs : files.write path (.text text) with
    | error e => 
      rw [hs] at h
      exact absurd (Prod.mk.inj h).1 nofun
    | ok written =>
      rw [hs] at h
      obtain ⟨-, rfl⟩ := Prod.mk.inj h
      rfl
  exact Files.readText_of_write hw

namespace Storing

variable {d : Disk} {s s' : Store} {n : Nat} {l : CompiledLevel} {keys : KeyPaths} {key : String}
  {v : Value}

theorem run_ofExcept {α : Type} (r : Except HierarchyError α) (s : Store) :
    (ofExcept r).run s = (r, s) := rfl

/-- The envelope of a value, made with the public key in a file. -/
def envelopeOf (d : Disk) (s : Store) (keys : KeyPaths) (v : Value) :
    Except HierarchyError (String × Entropy) :=
  match d.readText s.files keys.publicKey with
  | .error e => .error (.io keys.publicKey e)
  | .ok text => do Envelope.encrypt (← Envelope.keyOfText text) (Compiled.plaintext v) s.entropy

theorem isEnvelope_of_envelopeOf {envelope : String} {entropy : Entropy}
    (h : envelopeOf d s keys v = .ok (envelope, entropy)) : IsEnvelope envelope := by
  unfold envelopeOf at h
  split at h
  · exact absurd h nofun
  · obtain ⟨_, -, h⟩ := bind_eq_ok.mp h
    exact Envelope.isEnvelope_of_encrypt h

/-- What a protected level stores is an envelope; if there is none, nothing has happened. -/
theorem run_storedForm (hk : l.keys = some keys) : (storedForm d l v).run s =
    match envelopeOf d s keys v with
    | .ok (envelope, entropy) => (.ok (.string envelope), { s with entropy })
    | .error e => (.error e, s) := by
  simp only [storedForm, hk, run_bind, loadKey, run_get, envelopeOf]
  cases d.readText s.files keys.publicKey with
  | error e => rfl
  | ok text =>
    simp only [run_ofExcept]
    cases Envelope.keyOfText text with
    | error e => rfl
    | ok key =>
      have hbind (f : Rsa.PublicKey → Except HierarchyError (String × Entropy)) :
          (Except.ok key >>= f) = f key := rfl
      simp only [hbind]
      cases Envelope.encrypt key (Compiled.plaintext v) s.entropy <;> rfl

theorem run_assign (hl : s.compiled.levels[n]? = some l) (hk : l.keys = some keys) :
    (assign d n key v).run s = match envelopeOf d s keys v with
      | .ok (envelope, entropy) => (assignRaw d n key (.string envelope)).run { s with entropy }
      | .error e => (.error e, s) := by
  have hlevel : (level n).run s = (.ok l, s) :=
    Prod.ext (Compiled.level_eq_ok hl) rfl
  rw [assign, run_bind, hlevel]
  simp only [run_bind, run_storedForm hk]
  cases envelopeOf d s keys v <;> rfl

theorem compiled_makeParent {path : String} {r : Except HierarchyError Unit}
    (h : (makeParent d path).run s = (r, s')) : s'.compiled = s.compiled := by
  unfold makeParent at h
  split at h
  · obtain ⟨-, rfl⟩ := Prod.mk.inj h
    rfl
  · obtain ⟨-, rfl⟩ := Prod.mk.inj h
    rfl

theorem saved_of_save (hd : d.Faithful) {f : DataFile} (h : (save d f).run s = (.ok (), s')) :
    s'.compiled = s.compiled ∧ s'.files.readText f.path = .ok f.text := by
  obtain ⟨_, made, hmake, hfile⟩ := run_bind_eq_ok.mp h
  rw [run_onFiles] at hfile
  obtain ⟨hok, rfl⟩ := Prod.mk.inj hfile
  have hmade : made.compiled = s.compiled := compiled_makeParent hmake
  refine ⟨hmade, hd _ _ made.files _ (Prod.ext ?_ rfl)⟩
  rcases hw : ((d.write f.path f.text).run made.files).1 with e | _
  · rw [hw] at hok
    exact absurd hok nofun
  · rfl

/-- A value that has been written as it is stands in the copy of the level, which is the file that was
there with that one key set, and so does what its file holds. -/
theorem written_assignRaw (hd : d.Faithful) (hl : s.compiled.levels[n]? = some l)
    (h : (assignRaw d n key v).run s = (.ok (), s')) :
    ∃ f : DataFile, f.path = l.path ∧ f.isData = true ∧
      s'.compiled = s.compiled.putLevel n { l with file := some (f.set key v) } ∧
        s'.files.readText l.path = .ok (f.set key v).text := by
  obtain ⟨l', t, hlevel, hrest⟩ := run_bind_eq_ok.mp h
  obtain ⟨hl', rfl⟩ := level_eq_ok hlevel
  obtain rfl := Option.some.inj (hl.symm.trans hl')
  obtain ⟨old, t, hopen, hwrite⟩ := run_bind_eq_ok.mp hrest
  obtain rfl := (looks_open d l.path).eq hopen
  obtain ⟨_, saved, hsave, hput⟩ := run_bind_eq_ok.mp hwrite
  obtain ⟨hpath, hdata⟩ := start_of_open hopen
  obtain ⟨hcompiled, htext⟩ := saved_of_save hd hsave
  obtain ⟨-, rfl⟩ := Prod.mk.inj hput
  rw [DataFile.path_set, hpath] at htext
  refine ⟨_, hpath, hdata, ?_, htext⟩
  rw [← hcompiled]

end Storing

/-- The machine with other random bytes to come. -/
def Machine.withEntropy (m : Machine Host) (entropy : Entropy) : Machine Host :=
  Writing.withStored m { Writing.stored m with entropy }

namespace Writing

/-- Sets a parameter of a class at a level to a value as it is. -/
def overwrite (d : Disk) (className property : String) (v : Value) (level : Nat) : Writing Unit := do
  let className := Name.normalize className
  onHierarchy (Storing.assignRaw d level (Machine.overrideKey className property) v)
  modify (·.invalidateClass className)

variable {d : Disk} {m m' : Machine Host} {n : Nat} {l : CompiledLevel} {keys : KeyPaths}
  {v : Value}

theorem run_setProperty (className property : String)
    (hl : m.host.node.compiled.levels[n]? = some l) (hk : l.keys = some keys) :
    (setProperty d className property v n).run m =
      match Storing.envelopeOf d (stored m) keys v with
      | .ok (envelope, entropy) =>
        (overwrite d className property (.string envelope) n).run (m.withEntropy entropy)
      | .error e => (.error (.hierarchy e), m) := by
  have hl' : (stored m).compiled.levels[n]? = some l := hl
  simp only [setProperty, overwrite, run_bind, run_onHierarchy, Storing.run_assign hl' hk]
  cases Storing.envelopeOf d (stored m) keys v <;> rfl

theorem exists_of_onHierarchy {α : Type} {x : Storing α} {a : α}
    (h : (onHierarchy x).run m = (.ok a, m')) :
    ∃ s', x.run (stored m) = (.ok a, s') ∧ m' = withStored m s' := by
  rw [run_onHierarchy] at h
  obtain ⟨hok, rfl⟩ := Prod.mk.inj h
  refine ⟨_, Prod.ext ?_ rfl, rfl⟩
  cases hrun : (x.run (stored m)).1 with
  | error e =>
    rw [hrun] at hok
    exact absurd hok nofun
  | ok b =>
    rw [hrun] at hok
    obtain rfl := Except.ok.inj hok
    rfl

theorem written_overwrite {className property : String} (hd : d.Faithful)
    (hl : m.host.node.compiled.levels[n]? = some l)
    (h : (overwrite d className property v n).run m = (.ok (), m')) :
    ∃ f : DataFile, f.path = l.path ∧ f.isData = true ∧
      let new := f.set (Machine.overrideKey (Name.normalize className) property) v
      m'.host.node.compiled = m.host.node.compiled.putLevel n { l with file := some new } ∧
        m'.host.world.files.readText l.path = .ok new.text := by
  obtain ⟨_, t, hwrite, hlast⟩ := run_bind_eq_ok.mp h
  obtain ⟨s', hassign, rfl⟩ := exists_of_onHierarchy hwrite
  obtain ⟨-, rfl⟩ := Prod.mk.inj hlast
  exact Storing.written_assignRaw (s := stored m) hd hl hassign

end Writing

/-- What comes of setting a property on a level that has a path and keys. -/
structure Sealed (d : Disk) (m : Machine Host) (n : Nat) (path : String) (keys : KeyPaths)
    (className property : String) (v : Value) : Prop where
  /-- Without an envelope the call fails, and nothing has changed. -/
  refused : ∀ e, Storing.envelopeOf d (Writing.stored m) keys v = .error e →
    (Writing.setProperty d className property v n).run m = (.error (.hierarchy e), m)
  /-- With an envelope the call is one that sets the envelope as it is. -/
  replaced : ∀ envelope entropy,
    Storing.envelopeOf d (Writing.stored m) keys v = .ok (envelope, entropy) →
      IsEnvelope envelope ∧ (Writing.setProperty d className property v n).run m =
        (Writing.overwrite d className property (.string envelope) n).run (m.withEntropy entropy)
  /-- A call that succeeds leaves the envelope under the key, in the copy of the level and in its
  file, which reads the same where YAML reads what was printed. -/
  stands : ∀ m', (Writing.setProperty d className property v n).run m = (.ok (), m') →
    ∃ envelope entropy l f,
      Storing.envelopeOf d (Writing.stored m) keys v = .ok (envelope, entropy) ∧
      m'.host.node.compiled.levels[n]? = some l ∧ l.file = some f ∧
      f.get? (Machine.overrideKey (Name.normalize className) property) = some (.string envelope) ∧
      m'.host.world.files.readText path = .ok f.text ∧
      (f.ReadsBack →
        ∃ g, DataFile.open m'.host.world.files path = .ok (some g) ∧ g.data = f.data)

theorem Sealed.of_level {d : Disk} {m : Machine Host} {n : Nat} {l : CompiledLevel}
    {keys : KeyPaths} (hd : d.Faithful) (hl : m.host.node.compiled.levels[n]? = some l)
    (hk : l.keys = some keys) (className property : String) (v : Value) :
    Sealed d m n l.path keys className property v := by
  have hrun := Writing.run_setProperty (d := d) (v := v) className property hl hk
  refine ⟨fun e he => by rw [hrun, he], fun envelope entropy henvelope => ?_, fun m' h => ?_⟩
  · exact ⟨Storing.isEnvelope_of_envelopeOf henvelope, by rw [hrun, henvelope]⟩
  · cases henvelope : Storing.envelopeOf d (Writing.stored m) keys v with
    | error e =>
      rw [hrun, henvelope] at h
      exact absurd (Prod.mk.inj h).1 nofun
    | ok r =>
      rw [hrun, henvelope] at h
      obtain ⟨f, hpath, hdata, hcompiled, htext⟩ :=
        Writing.written_overwrite (m := m.withEntropy r.2) hd hl h
      refine ⟨r.1, r.2, { l with file := some (f.set _ (.string r.1)) }, _, rfl, ?_, rfl,
        DataFile.get?_set _ _ _, htext, fun hr => ?_⟩
      · rw [hcompiled]
        exact List.getElem?_set_self (List.getElem?_eq_some_iff.mp hl).1
      · have hparse := DataFile.parse_of_readsBack hr (DataFile.isData_set hdata rfl _) l.path
        have hopen := (DataFile.open_of_readText htext).trans (congrArg (Except.map some) hparse)
        exact ⟨_, hopen, rfl⟩

/-- Whatever happens to a node until its hierarchy is bound anew, what is set on a level that the
document protects is sealed. -/
theorem sealed_of_protects {text root : String} {files : Files} {h : Hierarchy}
    {facts trusted : Facts} {m : Machine Host} {n : Nat} {d : Disk}
    (hp : Hierarchy.parse text root = .ok h)
    (hc : Compiled.compile files h facts trusted = .ok m.host.node.compiled)
    (hn : Hierarchy.Protects text n) (hd : d.Faithful) :
    ∃ l keys, m.host.node.compiled.levels[n]? = some l ∧ l.keys = some keys ∧
      ∀ depth ops, (∀ o ∈ ops, o.binds = false) → ∀ className property v,
        Sealed d (NodeOperation.runAll d depth ops m) n l.path keys className property v := by
  obtain ⟨l, hl, hkeys⟩ := (Compiled.keys_iff_protects hp hc).mpr hn
  obtain ⟨keys, hk⟩ := Option.isSome_iff_exists.mp hkeys
  refine ⟨l, keys, hl, hk, fun depth ops hops className property v => ?_⟩
  have houtline := congrArg (·.2.2.2[n]?) (NodeOperation.outline_runAll d depth hops m)
  simp only [Node.outline, Compiled.outline, List.getElem?_map, hl] at houtline
  obtain ⟨l', hl', hsame⟩ := Option.map_eq_some_iff.mp houtline
  obtain ⟨-, hrest⟩ := Prod.mk.inj hsame
  obtain ⟨hpath, hkeys'⟩ := Prod.mk.inj hrest
  exact hpath ▸ Sealed.of_level hd hl' (hkeys'.trans hk) className property v

/-- A document whose only level names no key itself. -/
def vaultDocument : String :=
  "version: 5\ndefaults:\n  options:\n    pkcs7_public_key: key.pem\nhierarchy:\n- common.yaml\n"

def vaultFiles : Files :=
  ⟨[(["key.pem"], .file (.text
    ("-----BEGIN RSA PUBLIC KEY-----\n" ++
      "MEgCQQCzMgbONjc43hQo7rjwgtRe8NyhhrYTbceQ6r16IH5DhbnST6dAsr5V0tTO\n" ++
      "XT9BSYVvbkwEj9yZvxyCIETwxlslAgMBAAE=\n-----END RSA PUBLIC KEY-----\n")) 0)], [], 0⟩

def vaultLevel : Level := ⟨"common.yaml", "common.yaml", none, none⟩

def vaultHierarchy : Hierarchy := ⟨5, "data", some ⟨"key.pem", none⟩, [vaultLevel]⟩

def vaultNode : Node :=
  { Fleet.newcomer "n0" with
    hierarchy := vaultHierarchy
    compiled := ⟨[⟨vaultLevel, "data/common.yaml", some ⟨"key.pem", none⟩, none⟩], []⟩ }

def atVault : Machine Host :=
  .start ⟨vaultNode, .ofFiles vaultFiles ⟨fun i => UInt8.ofNat (i + 1), 0⟩⟩

theorem vault_sealed : Node.create vaultFiles "n0" [] vaultHierarchy .shelf = .ok vaultNode ∧
    ∃ m', (Writing.setProperty .plain "a" "p" (.string "s3cret") 0).run atVault = (.ok (), m') ∧
      ∃ l keys, atVault.host.node.compiled.levels[0]? = some l ∧ l.keys = some keys ∧
        Sealed .plain atVault 0 l.path keys "a" "p" (.string "s3cret") := by
  have hparse : Hierarchy.parse vaultDocument "" = .ok vaultHierarchy := by decide +kernel
  have hcompile : Compiled.compile vaultFiles vaultHierarchy [] [] =
      .ok atVault.host.node.compiled := rfl
  have hprotects : Hierarchy.Protects vaultDocument 0 :=
    (Compiled.keys_iff_protects hparse hcompile).mp ⟨_, rfl, rfl⟩
  obtain ⟨l, keys, hl, hk, hsealed⟩ :=
    sealed_of_protects hparse hcompile hprotects Disk.plain_faithful
  have hok : ((Writing.setProperty .plain "a" "p" (.string "s3cret") 0).run atVault).1 = .ok () := by
    decide +kernel
  generalize (Writing.setProperty .plain "a" "p" (.string "s3cret") 0).run atVault = r at hok ⊢
  exact ⟨rfl, r.2, Prod.ext hok rfl, l, keys, hl, hk, hsealed 0 [] nofun "a" "p" _⟩

end Cascade
