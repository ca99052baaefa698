import KubeYamls.Conc.Steps
import KubeYamls.Data.Strings
import Mathlib.Data.Prod.Lex
import Mathlib.Data.String.Basic
import Mathlib.Logic.Embedding.Basic
import Mathlib.Order.WithBot

/-! # Plugins of the Jenkins image

When the container starts, `copy_reference_file` copies each file of the image to
`JENKINS_HOME` that is not there yet. A plugin is also copied over an older one,
unless someone has upgraded that one by hand: a marker remembers which version
came from an image. Versions are compared by `versionLT`, a number and a
qualifier each put in order by `sort -V`. -/
namespace KubeYamls.Jenkins
open Data Conc List Option Function

/-- A version as it stands in a plugin or a marker: one line, and nothing `echo -e` would
interpret. -/
structure Version where
  text : String
  plain : '\n' ∉ text.toList ∧ '\\' ∉ text.toList
deriving DecidableEq

/-- What is read where there is nothing to read. -/
def Version.empty : Version := ⟨"", by simp⟩

def Version.isOption (v : Version) : Bool :=
  match v.text.toList with
  | '-' :: c :: cs => (c :: cs).all fun c => c = 'n' || c = 'e' || c = 'E'
  | _ => false

/-- `$(echo "$v")` -/
def Version.echoed (v : Version) : String := if v.isOption then "" else v.text

/-- `cut -d '-' -f 1` -/
def number (s : String) : String := String.ofList (s.toList.takeWhile (· ≠ '-'))

/-- `cut -s -d '-' -f 2-` -/
def qualifier (s : String) : String := String.ofList ((s.toList.dropWhile (· ≠ '-')).drop 1)

section versions
variable {S : Type} [LinearOrder S] (sortV : String ↪ S)

/-- `echo -e "$a\n$b" | sort -V | head -n1` -/
def first (a b : String) : String := if sortV a ≤ sortV b then a else b

def versionLT (a b : Version) : Bool :=
  let v1 := number a.echoed
  let q1 := qualifier a.echoed
  let v2 := number b.echoed
  let q2 := qualifier b.echoed
  if v1 = v2 then
    if q1 = q2 then false
    else if q1 = "" then false
    else if q2 = "" then true
    else q1 = first sortV q1 q2
  else v1 = first sortV v1 v2

variable {sortV}

theorem eq_first_iff {a b} (h : a ≠ b) : a = first sortV a b ↔ sortV a < sortV b := by
  have hne : sortV a ≠ sortV b := sortV.injective.ne h
  unfold first
  split
  · rename_i hle
    exact ⟨fun _ => lt_of_le_of_ne hle hne, fun _ => rfl⟩
  · rename_i hle
    exact ⟨fun he => absurd he h, fun hlt => absurd hlt.le hle⟩

/-- Where a version stands: by its number, and with one number by its qualifier, after all of
which comes the version without one. -/
def versionKey (sortV : String ↪ S) (a : Version) : S ×ₗ WithTop S :=
  toLex (sortV (number a.echoed), if qualifier a.echoed = "" then ⊤ else ↑(sortV (qualifier a.echoed)))

theorem versionLT_iff {a b} : versionLT sortV a b = true ↔ versionKey sortV a < versionKey sortV b := by
  unfold versionLT versionKey
  rw [Prod.Lex.toLex_lt_toLex]
  by_cases hv : number a.echoed = number b.echoed
  · simp only [hv, if_true, lt_irrefl, true_and, false_or]
    by_cases hq : qualifier a.echoed = qualifier b.echoed
    · simp [hq]
    · by_cases ha : qualifier a.echoed = ""
      · simp [ha]
      · by_cases hb : qualifier b.echoed = ""
        · simp [ha, hb]
        · simp [ha, hb, hq, eq_first_iff hq]
  · have hne : sortV (number a.echoed) ≠ sortV (number b.echoed) := sortV.injective.ne hv
    simp [hv, hne, eq_first_iff hv]

theorem not_versionLT_iff {a b} : versionLT sortV a b = false ↔ versionKey sortV b ≤ versionKey sortV a := by
  rw [← Bool.not_eq_true, versionLT_iff, not_lt]

end versions

/-- What the script reads out of a file: the version of a plugin (`unzip`, `grep` and `sed`,
nothing if it is not a plugin), and the line of a marker (`cat`). -/
structure Tools where
  pluginVersion : List UInt8 → Version
  line : List UInt8 → Version

/-- The files under `JENKINS_HOME`, by their paths in it. -/
abbrev Home := String → Option (List UInt8)

/-- The variables of the environment; what is not set is empty. -/
structure Env where
  tryUpgradeIfNoMarker : String := ""
  verbose : String := ""

/-- `${s%suffix}`, for a suffix without wildcards. -/
def trimEnd (s ending : String) : String :=
  if ending.toList.isSuffixOf s.toList then String.ofList (s.toList.take (s.length - ending.length)) else s

def endsWith (s ending : String) : Bool := ending.toList.isSuffixOf s.toList

/-- `[[ $path == plugins/*.jpi ]]` -/
def isPluginPath (path : String) : Bool := startsWith path "plugins/" && endsWith path ".jpi"

/-- A file of the image, below `/usr/share/jenkins/ref/`. -/
structure RefFile where
  path : String
  content : List UInt8

namespace RefFile
variable (r : RefFile)

def f : String := trimEnd r.path "/"

def b : String := trimEnd r.f ".override"

def rel : String := String.ofList (r.b.toList.drop 23)

def versionMarker : String := r.rel ++ ".version_from_image"

def pinned : String := r.rel ++ ".pinned"

def isPlugin : Bool := isPluginPath r.rel

/-- `[[ $f = *.override ]]` -/
def isOverride : Bool := endsWith r.f ".override"

end RefFile

inductive Action where
  | skipped
  | upgraded
  | installed
deriving DecidableEq

def Action.text : Action → String
  | .skipped => "SKIPPED"
  | .upgraded => "UPGRADED"
  | .installed => "INSTALLED"

/-- What the versions of a plugin lead to. -/
structure Decision where
  action : Option Action := none
  reason : String := ""
  log : Bool := false
  /-- Is the marker added for next time? -/
  marks : Bool := false

/-- What `echo "$v"` writes to a file. -/
def echoBytes (v : Version) : List UInt8 :=
  if v.isOption && 'n' ∈ v.text.toList then [] else v.echoed.toUTF8.toList ++ [10]

section copy
variable {S : Type} [LinearOrder S] (sortV : String ↪ S) (tools : Tools)

def compareVersions (env : Env) (marker : Option Version) (container image : Version) : Decision :=
  match marker with
  | some marker =>
    if versionLT sortV marker container then
      { action := some .skipped
        log := true
        reason := "Installed version (" ++ container.text ++
          ") has been manually upgraded from initial version (" ++ marker.text ++ ")" }
    else if image = container then
      { action := some .skipped
        reason := "Version from image is the same as the installed version " ++ image.text }
    else if versionLT sortV image container then
      { action := some .skipped
        log := true
        reason := "Image version (" ++ image.text ++ ") is older than installed version (" ++
          container.text ++ ")" }
    else
      { action := some .upgraded
        log := true
        reason := "Image version (" ++ image.text ++ ") is newer than installed version (" ++
          container.text ++ ")" }
  | none =>
    if env.tryUpgradeIfNoMarker ≠ "" then
      if image = container then
        { action := some .skipped
          marks := true
          reason := "Version from image is the same as the installed version " ++ image.text ++
            " (no marker found)" }
      else if versionLT sortV image container then
        { action := some .skipped
          log := true
          reason := "Image version (" ++ image.text ++ ") is older than installed version (" ++
            container.text ++ ") (no marker found)" }
      else
        { action := some .upgraded
          log := true
          reason := "Image version (" ++ image.text ++ ") is newer than installed version (" ++
            container.text ++ ") (no marker found)" }
    else {}

/-- What a run of the script leaves: the files, the lines of its log, and whether it has copied
the file. -/
structure Copied where
  home : Home
  log : List String
  copied : Bool

def logLine (env : Env) (log : Bool) (action : Action) (rel reason : String) : List String :=
  if env.verbose ≠ "" || log then
    [if reason = "" then action.text ++ " " ++ rel else action.text ++ " " ++ rel ++ " : " ++ reason]
  else []

def copyReferenceFile (env : Env) (r : RefFile) (home : Home) : Copied :=
  if r.isPlugin then
    let container := ((home r.rel).map tools.pluginVersion).getD .empty
    let image := tools.pluginVersion r.content
    let d := compareVersions sortV env ((home r.versionMarker).map tools.line) container image
    let home := if d.marks then update home r.versionMarker (some (echoBytes image)) else home
    if (home r.rel).isNone || d.action = some .upgraded || r.isOverride then
      let home := update home r.rel (some r.content)
      -- pin plugins on initial copy
      let home := update home r.pinned (some ((home r.pinned).getD []))
      let home := update home r.versionMarker (some (echoBytes image))
      let reason := if d.reason = "" then image.text else d.reason
      ⟨home, logLine env true (d.action.getD .installed) r.rel reason, true⟩
    else ⟨home, logLine env d.log (d.action.getD .skipped) r.rel d.reason, false⟩
  else if (home r.rel).isNone || r.isOverride then
    ⟨update home r.rel (some r.content), logLine env true .installed r.rel "", true⟩
  else ⟨home, logLine env false .skipped r.rel "", false⟩

/-- What can happen next. The start of a container is a series of copies, in any order. -/
inductive Label where
  | copy (env : Env) (r : RefFile)
  /-- Someone changes the files by hand, or Jenkins itself does. -/
  | manual (home : Home)

def step : Label → Home → Option Home
  | .copy env r, home => some (copyReferenceFile sortV tools env r home).home
  | .manual home, _ => some home

section results
variable {sortV tools} {env : Env} {r : RefFile} {home : Home} {rel : String}

theorem compareVersions_upgraded {marker container image}
    (h : (compareVersions sortV env marker container image).action = some .upgraded) :
    versionLT sortV image container = false ∧ ∀ m ∈ marker, versionLT sortV m container = false := by
  unfold compareVersions at h
  -- every branch but one decides for something else
  cases marker with
  | none =>
    dsimp only at h
    split_ifs at h with _ _ hlower <;> cases h
    exact ⟨Bool.eq_false_iff.mpr hlower, nofun⟩
  | some m =>
    dsimp only at h
    split_ifs at h with hnewer _ hlower <;> cases h
    refine ⟨Bool.eq_false_iff.mpr hlower, fun m' hm' => ?_⟩
    obtain rfl := some.inj hm'
    exact Bool.eq_false_iff.mpr hnewer

theorem ne_of_isPluginPath (h : isPluginPath rel = true) (base : String) :
    rel ≠ base ++ ".version_from_image" ∧ rel ≠ base ++ ".pinned" := by
  have hsuffix : ".jpi".toList <:+ rel.toList := isSuffixOf_iff_suffix.mp (Bool.and_eq_true_iff.mp h).2
  obtain ⟨front, hfront⟩ := hsuffix
  have hlast : rel.toList.getLast? = some 'i' := by
    rw [← hfront, getLast?_append]
    rfl
  constructor
  · rintro rfl
    simp [String.toList_append, getLast?_append] at hlast
  · rintro rfl
    simp [String.toList_append, getLast?_append] at hlast

theorem copyReferenceFile_of_ne (h : isPluginPath rel = true) (hne : rel ≠ r.rel) :
    (copyReferenceFile sortV tools env r home).home rel = home rel := by
  have hmarker : rel ≠ r.versionMarker := (ne_of_isPluginPath h r.rel).1
  have hpinned : rel ≠ r.pinned := (ne_of_isPluginPath h r.rel).2
  unfold copyReferenceFile
  dsimp only
  split_ifs <;> simp [hne, hmarker, hpinned]

theorem copyReferenceFile_cases {installed} (hplugin : r.isPlugin = true)
    (hoverride : r.isOverride = false) (hinstalled : home r.rel = some installed) :
    ((copyReferenceFile sortV tools env r home).copied = false ∧
      (copyReferenceFile sortV tools env r home).home r.rel = some installed) ∨
    ((copyReferenceFile sortV tools env r home).copied = true ∧
      (copyReferenceFile sortV tools env r home).home r.rel = some r.content ∧
      (compareVersions sortV env ((home r.versionMarker).map tools.line) (tools.pluginVersion installed)
        (tools.pluginVersion r.content)).action = some .upgraded) := by
  have hmarker : r.rel ≠ r.versionMarker := (ne_of_isPluginPath hplugin r.rel).1
  have hpinned : r.rel ≠ r.pinned := (ne_of_isPluginPath hplugin r.rel).2
  unfold copyReferenceFile
  simp only [hplugin, if_true, hinstalled, map_some, getD_some]
  generalize compareVersions sortV env _ _ _ = d
  -- the marker that may be added is another file
  have hthere : (if d.marks = true then
      update home r.versionMarker (some (echoBytes (tools.pluginVersion r.content))) else home) r.rel =
        some installed := by
    split
    · rw [update_of_ne hmarker, hinstalled]
    · exact hinstalled
  rw [hthere, hoverride]
  by_cases hup : d.action = some .upgraded
  · rw [if_pos (by simp [hup])]
    exact .inr ⟨rfl, by simp [hmarker, hpinned], hup⟩
  · rw [if_neg (by simp [hup])]
    exact .inl ⟨rfl, hthere⟩

end results

section runs

/-- A run on a plugin of the image, which is not to be forced, leaves the installed plugin as it is,
or replaces it by one that is not lower, and only if it is not newer than its marker. -/
def KeepsNewer (home : Home) : Label → Prop
  | .copy env r => r.isPlugin = true → r.isOverride = false → ∀ installed, home r.rel = some installed →
    ((copyReferenceFile sortV tools env r home).copied = false ∧
      (copyReferenceFile sortV tools env r home).home r.rel = some installed) ∨
    ((copyReferenceFile sortV tools env r home).copied = true ∧
      (copyReferenceFile sortV tools env r home).home r.rel = some r.content ∧
      versionLT sortV (tools.pluginVersion r.content) (tools.pluginVersion installed) = false ∧
      ∀ marker, home r.versionMarker = some marker →
        versionLT sortV (tools.line marker) (tools.pluginVersion installed) = false)
  | .manual _ => True

/-- A step that neither forces nor changes a plugin by hand. -/
def LeavesToImage (rel : String) (home : Home) : Label → Prop
  | .copy _ r => r.rel = rel → r.isOverride = false
  | .manual home' => home' rel = home rel

variable {sortV tools}

variable (sortV tools) in
theorem keepsNewer (home : Home) (label : Label) : KeepsNewer sortV tools home label := by
  cases label with
  | manual home' => trivial
  | copy env r =>
    intro hplugin hoverride installed hinstalled
    refine (copyReferenceFile_cases hplugin hoverride hinstalled).imp_right fun h => ?_
    obtain ⟨hcopied, hhome, hupgraded⟩ := h
    obtain ⟨hlower, hnewer⟩ := compareVersions_upgraded hupgraded
    exact ⟨hcopied, hhome, hlower, fun marker hmarker => hnewer _ (by rw [hmarker]; rfl)⟩

/-- As long as a plugin is left to the images it stays installed, and its version never goes down. -/
theorem not_lower_of_run {rel home home' installed}
    (hrel : isPluginPath rel = true) (hrun : Run (step sortV tools) (LeavesToImage rel) home home')
    (hinstalled : home rel = some installed) : ∃ content, home' rel = some content ∧
      versionLT sortV (tools.pluginVersion content) (tools.pluginVersion installed) = false := by
  simp only [not_versionLT_iff]
  refine hrun.keeps (I := fun h => ∃ content, h rel = some content ∧
    versionKey sortV (tools.pluginVersion installed) ≤ versionKey sortV (tools.pluginVersion content))
    ⟨installed, hinstalled, le_rfl⟩ ?_
  rintro h label h' ⟨content, hcontent, hle⟩ hlabel hstep
  cases label with
  | manual home'' =>
    obtain rfl := some.inj hstep
    exact ⟨content, hlabel.trans hcontent, hle⟩
  | copy env r =>
    obtain rfl := some.inj hstep
    by_cases hr : rel = r.rel
    · subst hr
      rcases keepsNewer sortV tools h (.copy env r) hrel (hlabel rfl) content hcontent with ⟨-, hsame⟩ | ⟨-, hnew, hlower, -⟩
      · exact ⟨content, hsame, hle⟩
      · exact ⟨r.content, hnew, hle.trans (not_versionLT_iff.mp hlower)⟩
    · exact ⟨content, (copyReferenceFile_of_ne hrel hr).trans hcontent, hle⟩

variable (sortV tools) in
/-- Whatever images are started and whatever is changed in between: no run puts a lower version in
the place of a plugin, nor replaces one that is newer than its marker. From one change by hand to the
next the version of a plugin never goes down. -/
theorem upgrades_monotone {home0 home : Home} (hrun : Run (step sortV tools) (fun _ _ => True) home0 home) :
    Run (step sortV tools) (KeepsNewer sortV tools) home0 home ∧
    ∀ rel home', isPluginPath rel = true → Run (step sortV tools) (LeavesToImage rel) home home' →
      ∀ installed, home rel = some installed → ∃ content, home' rel = some content ∧
        versionLT sortV (tools.pluginVersion content) (tools.pluginVersion installed) = false :=
  ⟨hrun.mono fun h label _ => keepsNewer sortV tools h label, fun _ _ hrel hrun' _ hinstalled =>
    not_lower_of_run hrel hrun' hinstalled⟩

end runs

end copy

section samples

/-- A file that holds nothing but a version, which is also how it is read. -/
def bareTools : Tools where
  pluginVersion content := versionOf content
  line content := versionOf content
where
  /-- Digits and dots. -/
  versionOf (content : List UInt8) : Version :=
    ⟨String.ofList ((content.map fun c => Char.ofNat c.toNat).filter fun c => c.isDigit || c = '.'), by
      constructor <;> simp⟩

def gitPlugin (version : String) : RefFile := ⟨"/usr/share/jenkins/ref/plugins/git.jpi", version.toUTF8.toList⟩

/-- The plugin "git" as someone has installed it over version 2.0. -/
def upgradedByHand (version : String) : Home
  | "plugins/git.jpi" => some version.toUTF8.toList
  | "plugins/git.jpi.version_from_image" => some "2.0".toUTF8.toList
  | _ => none

/-- The second image replaces the plugin of the first; the third leaves that of a user. -/
theorem upgrades_monotone_git :
    ∃ home, Run (step (.refl String) bareTools) (fun _ _ => True) (fun _ => none) home ∧
      home "plugins/git.jpi" = some "2.0".toUTF8.toList ∧
    ∃ home', Run (step (.refl String) bareTools) (fun _ _ => True) home home' ∧
      Run (step (.refl String) bareTools) (KeepsNewer (.refl String) bareTools) home home' ∧
      home' "plugins/git.jpi" = some "3.0".toUTF8.toList := by
  obtain ⟨home, hhome, hold, hrun'⟩ : ∃ home, Run (step (.refl String) bareTools) (fun _ _ => True) (fun _ => none) home ∧
      home "plugins/git.jpi" = some "2.0".toUTF8.toList ∧
      (follow (step (.refl String) bareTools) (fun _ _ => True) home
        [.manual (upgradedByHand "3.0"), .copy {} (gitPlugin "4.0")]).any (fun home' =>
          home' "plugins/git.jpi" = some "3.0".toUTF8.toList) = true :=
    Run.of_labels [.copy {} (gitPlugin "1.0"), .copy {} (gitPlugin "2.0")] (by decide +kernel)
  obtain ⟨home', hhome', hnew⟩ := Run.of_labels _ hrun'
  exact ⟨home, hhome, hold, home', hhome', (upgrades_monotone (.refl String) bareTools hhome').1, hnew⟩

end samples

end KubeYamls.Jenkins
