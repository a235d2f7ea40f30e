import SchemaEditor.Command.Configure
import SchemaEditor.Proofs.Config.Store
import SchemaEditor.Proofs.Text.Numerals

/-!
# Settings that are set

Setting a value replaces one setting of the configuration and nothing else, and the file that is
written holds the configuration so changed. A key or a value that is refused leaves every file as
it was.
-/

namespace SchemaEditor.Command

open Storage (Tree)
open Outcome (run_bind_eq_ok_iff run_bind_eq_error_iff)

variable {c c' : Config} {env : Config.Environment} {loaded : Config.Loaded} {t t' : Tree}
variable {key value path line : String} {place? : Option String} {f : Failure} {α : Type} {a : α}
variable {change : Config.Change α}

/-! ### Replaced settings -/

/-- What a configuration becomes when a key is given a value: one setting is what the value stands
for, and the others stay. -/
inductive Replaces (c : Config) : String → String → Config → Prop
  | user (name : String) : Replaces c "user" name { c with user := some name }
  | historyLimit {limit : String} {n : Nat} (h : Text.Decimal.Numeral limit.toList n) :
    Replaces c "history_limit" limit { c with historyLimit := some n }
  | logFilter (filter : String) : Replaces c "log_filter" filter { c with logFilter := some filter }
  | additions (b : Bool) :
    Replaces c "actions.minor_version_additions" (flagText b)
      { c with actions := some ⟨some b⟩ }

theorem replaces_of_replaceSetting (h : replaceSetting c key value = .ok c') :
    Replaces c key value c' := by
  unfold replaceSetting at h
  split at h
  · obtain rfl := Except.ok.inj h
    exact .user value
  · split at h
    · next n hn =>
      obtain rfl := Except.ok.inj h
      exact .historyLimit (Text.number_eq_ok_iff.mp hn).1
    · cases h
  · obtain rfl := Except.ok.inj h
    exact .logFilter value
  · split at h
    · obtain rfl := Except.ok.inj h
      exact .additions true
    · obtain rfl := Except.ok.inj h
      exact .additions false
    · cases h
  · cases h

/-- A setting is only replaced if the configuration stays valid. -/
theorem withSetting_eq_ok_iff : withSetting c key value = .ok c' ↔
    replaceSetting c key value = .ok c' ∧ c'.validate = .ok () := by
  rw [withSetting, Outcome.bind_eq_ok_iff]
  constructor
  · rintro ⟨changed, hchanged, h⟩
    cases hvalid : changed.validate with
    | error fault =>
      rw [hvalid] at h
      cases h
    | ok u =>
      rw [hvalid] at h
      obtain rfl := Except.ok.inj h
      exact ⟨hchanged, hvalid⟩
  · rintro ⟨hchanged, hvalid⟩
    refine ⟨c', hchanged, ?_⟩
    rw [hvalid]
    rfl

/-! ### Files that are written -/

theorem writing_eq_ok_iff : writing change t = .ok a t' ↔ change t = .ok a t' := by
  rw [writing]
  cases change t <;> simp

theorem writing_eq_error_iff :
    writing change t = .error f t' ↔ ∃ e, change t = .error e t' ∧ f = .writeConfig e := by
  rw [writing]
  cases change t with
  | ok a t => simp
  | error e t => simp [eq_comm, and_comm]

/-- Where settings are written to: where they were read from, or else the file in the home
directory. -/
def IsTarget (env : Config.Environment) (place? : Option String) (path : String) : Prop :=
  place? = some path ∨ place? = none ∧ Config.globalPath env = .ok path

theorem write_of_saveConfig (h : saveConfig env c place? t = .ok path t') :
    IsTarget env place? path ∧ c.write path t = .ok () t' := by
  cases place? with
  | some p =>
    obtain ⟨⟨⟩, t₁, hwrite, h⟩ := run_bind_eq_ok_iff.mp h
    obtain ⟨rfl, rfl⟩ := EStateM.Result.ok.inj h
    exact ⟨.inl rfl, writing_eq_ok_iff.mp hwrite⟩
  | none =>
    have h := writing_eq_ok_iff.mp h
    rw [Config.writeGlobal] at h
    cases hglobal : Config.globalPath env with
    | error e =>
      rw [hglobal] at h
      cases h
    | ok p =>
      rw [hglobal] at h
      obtain ⟨⟨⟩, t₁, hwrite, h⟩ := run_bind_eq_ok_iff.mp h
      obtain ⟨rfl, rfl⟩ := EStateM.Result.ok.inj h
      exact ⟨.inr ⟨rfl, hglobal⟩, hwrite⟩

/-- The failure comes from the file system. -/
def Failure.OfFiles (f : Failure) : Prop := ∃ path cause, f = .writeConfig (.write path cause)

theorem sameFiles_of_writing_eq_error (h : writing (c.write path) t = .error f t') :
    f.OfFiles ∨ t.SameFiles t' := by
  obtain ⟨e, he, rfl⟩ := writing_eq_error_iff.mp h
  refine (Config.sameFiles_of_write_eq_error he).imp_left ?_
  rintro ⟨p, cause, rfl⟩
  exact ⟨p, cause, rfl⟩

theorem sameFiles_of_saveConfig_eq_error (h : saveConfig env c place? t = .error f t') :
    f.OfFiles ∨ t.SameFiles t' := by
  cases place? with
  | some p =>
    obtain h | ⟨_, _, _, h⟩ := run_bind_eq_error_iff.mp h
    · exact sameFiles_of_writing_eq_error h
    · cases h
  | none =>
    obtain ⟨e, he, rfl⟩ := writing_eq_error_iff.mp h
    rw [Config.writeGlobal] at he
    cases hglobal : Config.globalPath env with
    | error e' =>
      rw [hglobal] at he
      obtain ⟨rfl, rfl⟩ := EStateM.Result.error.inj he
      exact .inr (.refl t)
    | ok p =>
      rw [hglobal] at he
      obtain he | ⟨_, _, _, he⟩ := run_bind_eq_error_iff.mp he
      · exact sameFiles_of_writing_eq_error (writing_eq_error_iff.mpr ⟨e, he, rfl⟩)
      · cases he

/-! ### The command -/

theorem setConfig_eq_ok (h : setConfig env loaded key value t = .ok line t') :
    ∃ c path, withSetting loaded.config key value = .ok c ∧
      saveConfig env c loaded.path t = .ok path t' := by
  rw [setConfig] at h
  cases hset : withSetting loaded.config key value with
  | error f =>
    rw [hset] at h
    cases h
  | ok c =>
    rw [hset] at h
    obtain ⟨path, t₁, hsave, h⟩ := run_bind_eq_ok_iff.mp h
    obtain ⟨-, rfl⟩ := EStateM.Result.ok.inj h
    exact ⟨c, path, rfl, hsave⟩

theorem sameFiles_of_setConfig_eq_error (h : setConfig env loaded key value t = .error f t') :
    f.OfFiles ∨ t.SameFiles t' := by
  rw [setConfig] at h
  cases hset : withSetting loaded.config key value with
  | error f' =>
    rw [hset] at h
    obtain ⟨-, rfl⟩ := EStateM.Result.error.inj h
    exact .inr (.refl t)
  | ok c =>
    rw [hset] at h
    obtain h | ⟨_, _, _, h⟩ := run_bind_eq_error_iff.mp h
    · exact sameFiles_of_saveConfig_eq_error h
    · cases h

/-- A valid configuration that was written is loaded from its file as it was. So a setting that was
set is all that changes in the configuration that is loaded afterwards, and unless the file system
refuses something, a failure to set one leaves the files and what is read from them as they were. -/
theorem written_config_loads :
    (∀ (c : Config) (path : String) (t t' : Tree), c.validate = .ok () →
      c.write path t = .ok () t' → Config.loadFile t' path = .ok c) ∧
    ∀ (env : Config.Environment) (loaded : Config.Loaded) (key value : String) (t t' : Tree),
      (∀ line, setConfig env loaded key value t = .ok line t' →
        ∃ path c, IsTarget env loaded.path path ∧ Replaces loaded.config key value c ∧
          Config.loadFile t' path = .ok c) ∧
      (∀ f, setConfig env loaded key value t = .error f t' → ¬ f.OfFiles →
        t'.files = t.files ∧ ∀ path text, t.read path = .ok text → t'.read path = .ok text) := by
  refine ⟨fun c path t t' => Config.loadFile_of_write, fun env loaded key value t t' => ⟨?_, ?_⟩⟩
  · intro line h
    obtain ⟨c, path, hset, hsave⟩ := setConfig_eq_ok h
    obtain ⟨hchanged, hvalid⟩ := withSetting_eq_ok_iff.mp hset
    obtain ⟨htarget, hwrite⟩ := write_of_saveConfig hsave
    exact ⟨path, c, htarget, replaces_of_replaceSetting hchanged,
      Config.loadFile_of_write hvalid hwrite⟩
  · intro f h hf
    have hsame := (sameFiles_of_setConfig_eq_error h).resolve_left hf
    exact ⟨hsame.files, fun path text => hsame.read⟩

/-- Where there are no files yet, a configuration is written and then again with another user. A
limit that is out of range is refused only after the directory was made. -/
theorem written_config_loads_first_time :
    let before : Config := ⟨some "alice", none, none, none, some ⟨["details"]⟩⟩
    let loaded : Config.Loaded := ⟨before, some "dex/config.toml", []⟩
    ∃ t₁ t₂ t₃ line path after,
      before.validate = .ok () ∧ before.write "dex/config.toml" .empty = .ok () t₁ ∧
      Config.loadFile t₁ "dex/config.toml" = .ok before ∧
      setConfig ⟨none, none, none⟩ loaded "user" "bob" .empty = .ok line t₂ ∧
      IsTarget ⟨none, none, none⟩ loaded.path path ∧ Replaces before "user" "bob" after ∧
      Config.loadFile t₂ path = .ok after ∧
      setConfig ⟨none, none, none⟩ loaded "history_limit" "9223372036854775808" .empty =
        .error (.writeConfig (.invalid .largeHistoryLimit)) t₃ ∧
      t₃.files = Tree.empty.files ∧
      ∀ path text, Tree.empty.read path = .ok text → t₃.read path = .ok text := by
  intro before loaded
  let after : Config := { before with user := some "bob" }
  have hwrite (c : Config) (hlimit : c.historyLimit = none) :
      ∃ t, c.write "dex/config.toml" .empty = .ok () t :=
    ⟨_, Config.write_eq_ok_iff.mpr ⟨_, Tree.empty.put ["dex"] .directory, _, rfl,
      Config.print_eq_ok_iff.mpr ⟨by simp [hlimit], rfl⟩,
      Tree.write_eq_ok_iff.mpr ⟨["dex", "config.toml.tmp"], rfl, by decide, rfl⟩,
      Tree.rename_eq_ok_iff.mpr ⟨["dex", "config.toml.tmp"], ["dex", "config.toml"], .file _, rfl,
        rfl, rfl, nofun, rfl⟩⟩⟩
  obtain ⟨t₁, h₁⟩ := hwrite before rfl
  obtain ⟨t₂, h₂⟩ := hwrite after rfl
  have hset : setConfig ⟨none, none, none⟩ loaded "user" "bob" .empty =
      .ok "Set user = bob in dex/config.toml" t₂ := by
    rw [setConfig, show withSetting loaded.config "user" "bob" = .ok after from rfl]
    exact run_bind_eq_ok_iff.mpr ⟨"dex/config.toml", t₂,
      run_bind_eq_ok_iff.mpr ⟨⟨⟩, t₂, writing_eq_ok_iff.mpr h₂, rfl⟩, rfl⟩
  have hrefused : setConfig ⟨none, none, none⟩ loaded "history_limit" "9223372036854775808" .empty =
      .error (.writeConfig (.invalid .largeHistoryLimit)) (Tree.empty.put ["dex"] .directory) := rfl
  obtain ⟨path, c, htarget, hreplaces, hload⟩ := (written_config_loads.2 _ _ _ _ _ _).1 _ hset
  exact ⟨t₁, t₂, _, _, path, c, rfl, h₁, written_config_loads.1 _ _ _ _ rfl h₁, hset, htarget,
    hreplaces, hload, hrefused,
    (written_config_loads.2 _ _ _ _ _ _).2 _ hrefused (by rintro ⟨_, _, h⟩; cases h)⟩

end SchemaEditor.Command
