import Anticheat.Baseline.Check
import Anticheat.Periodic.Environ
import Anticheat.Periodic.Manifest

/-!
# Implicit Vulkan layers

`ac_scan_active_implicit_layers` reads the layer manifests of the usual directories and leaves out
the layers that the environment of the process disables.
-/

namespace Anticheat.Periodic

open JsonSyntax
open CText (Bytes)
open Report (bytes)
open Baseline (pathMax)

/-- `AC_MANIFEST_MAX_BYTES` -/
def acManifestMaxBytes : ℕ := 64 * 1024

/-- `AC_MAX_IMPLICIT_LAYERS` -/
def acMaxImplicitLayers : ℕ := 64

/-! ### The scan -/

/-- A file of a directory, as the daemon meets it: whether it is a regular one, whether there is
memory for it, and how much the one call of `read` returns at most, if it does not fail. -/
structure ManifestFile where
  regular : Bool
  malloc : Bool
  content : Bytes
  read : Option ℕ
  deriving DecidableEq, Repr

/-- What the buffer holds after `read`. -/
def ManifestFile.buf (file : ManifestFile) : Option Bytes :=
  if !file.regular then none
  else if !file.malloc then none
  else
    match file.read with
    | none => none
    | some n =>
      let buf := file.content.take (min n (acManifestMaxBytes - 1))
      if buf.length = 0 then none else some buf

/-- What the daemon meets in the file system: the result of `ac_resolve_pid_home`, and what the
directories and files are by their paths. -/
structure LayerFs where
  home : Option Bytes
  opendir : Bytes → Option (List Bytes)
  openFile : Bytes → Option ManifestFile

/-- The body of the loop over a directory: the layer that is added. -/
def scanName (fs : LayerFs) (dir name : Bytes) : Option AcImplicitLayer :=
  if name.length < 5 || name.drop (name.length - 5) ≠ bytes ".json" then none
  else
    ((fs.openFile ((dir ++ 47 :: name).take (pathMax - 1))).bind ManifestFile.buf).bind
      manifestLayer

/-- The loop over the names in a directory. -/
def scanNames (fs : LayerFs) (dir : Bytes) :
    List Bytes → List AcImplicitLayer → List AcImplicitLayer
  | [], layers => layers
  | name :: names, layers =>
    if layers.length < acMaxImplicitLayers then
      scanNames fs dir names (layers ++ (scanName fs dir name).toList)
    else layers

/-- `ac_scan_implicit_layer_dir` -/
def acScanImplicitLayerDir (fs : LayerFs) (layers : List AcImplicitLayer) (dir : Bytes) :
    List AcImplicitLayer :=
  match fs.opendir dir with
  | none => layers
  | some names => scanNames fs dir names layers

/-- The directories that are scanned, in order. -/
def layerDirs (home : Option Bytes) : List Bytes :=
  (match home with
    | none => []
    | some home =>
      [home.take (pathMax - 1) ++ bytes "/.config/vulkan/implicit_layer.d",
        home.take (pathMax - 1) ++ bytes "/.local/share/vulkan/implicit_layer.d"]) ++
    [bytes "/etc/vulkan/implicit_layer.d", bytes "/usr/local/etc/vulkan/implicit_layer.d",
      bytes "/usr/share/vulkan/implicit_layer.d", bytes "/usr/local/share/vulkan/implicit_layer.d"]

/-- The layers that are found, before the environment is looked at. -/
def foundLayers (fs : LayerFs) : List AcImplicitLayer :=
  (layerDirs fs.home).foldl (acScanImplicitLayerDir fs) []

/-- Whether the environment of the process disables a layer. -/
def isDisabled (io : EnvironIo) (layer : AcImplicitLayer) : Bool :=
  layer.disableEnv ≠ [] &&
    (let (rc, vars) := acReadEnvironVars io [⟨layer.disableEnv, false, []⟩]
     rc = 0 && vars.any (·.found))

/-- The loop over the layers that were found; the environment is read anew for each. -/
def keepActive (environ : ℕ → EnvironIo) (outcap : ℕ) :
    ℕ → List AcImplicitLayer → List AcImplicitLayer → List AcImplicitLayer
  | _, [], out => out
  | i, layer :: found, out =>
    if out.length < outcap then
      keepActive environ outcap (i + 1) found
        (if isDisabled (environ i) layer then out else out ++ [layer])
    else out

/-- `ac_scan_active_implicit_layers` -/
def acScanActiveImplicitLayers (fs : LayerFs) (environ : ℕ → EnvironIo) (outcap : ℕ) :
    List AcImplicitLayer :=
  keepActive environ outcap 0 (foundLayers fs) []

/-! ### The number of layers -/

section

variable {fs : LayerFs} {layers : List AcImplicitLayer}

lemma length_scanNames_le {dir : Bytes} (names : List Bytes)
    (h : layers.length ≤ acMaxImplicitLayers) :
    (scanNames fs dir names layers).length ≤ acMaxImplicitLayers := by
  induction names generalizing layers with
  | nil => exact h
  | cons name names ih =>
    rw [scanNames]
    split_ifs with hlt
    · refine ih ?_
      have hone : (scanName fs dir name).toList.length ≤ 1 := by
        cases scanName fs dir name <;> simp
      rw [List.length_append]
      omega
    · exact h

lemma length_acScanImplicitLayerDir_le {dir : Bytes} (h : layers.length ≤ acMaxImplicitLayers) :
    (acScanImplicitLayerDir fs layers dir).length ≤ acMaxImplicitLayers := by
  rw [acScanImplicitLayerDir]
  split
  · exact h
  · exact length_scanNames_le _ h

/-- The layers that are found fit the array. -/
lemma length_foundLayers_le (fs : LayerFs) : (foundLayers fs).length ≤ acMaxImplicitLayers := by
  have hdirs : ∀ (dirs : List Bytes) (layers : List AcImplicitLayer),
      layers.length ≤ acMaxImplicitLayers →
        (dirs.foldl (acScanImplicitLayerDir fs) layers).length ≤ acMaxImplicitLayers := by
    intro dirs
    induction dirs with
    | nil => exact fun _ h => h
    | cons dir dirs ih => exact fun _ h => ih _ (length_acScanImplicitLayerDir_le h)
  exact hdirs _ [] (Nat.zero_le _)

end

/-! ### The layers that are left out -/

section

variable {environ : ℕ → EnvironIo} {outcap : ℕ} {layer : AcImplicitLayer}

/-- A layer is disabled only if its variable is set. -/
lemma getEnv_of_isDisabled {io : EnvironIo} (h : isDisabled io layer = true) :
    layer.disableEnv ≠ [] ∧ (getEnv io.content layer.disableEnv).isSome := by
  simp only [isDisabled, Bool.and_eq_true, decide_eq_true_eq] at h
  obtain ⟨hne, hrc, hfound⟩ := h
  have hfull : io.Full := by
    by_contra hnot
    rw [acReadEnvironVars_of_not_full hnot] at hrc
    exact absurd hrc (by decide)
  rw [acReadEnvironVars_of_full hfull] at hfound
  exact ⟨hne, by simpa using hfound⟩

/-- Every layer is kept that is not disabled at its turn. -/
lemma exists_disabled_of_count_lt {i : ℕ} {found out : List AcImplicitLayer}
    (hcap : out.length + found.length ≤ outcap)
    (h : (keepActive environ outcap i found out).count layer <
      out.count layer + found.count layer) :
    ∃ j, found[j]? = some layer ∧ isDisabled (environ (i + j)) layer = true := by
  induction found generalizing i out with
  | nil => simp [keepActive] at h
  | cons l found ih =>
    rw [List.length_cons] at hcap
    rw [keepActive, if_pos (by omega)] at h
    by_cases hl : isDisabled (environ i) l = true
    · by_cases heq : l = layer
      · exact ⟨0, by simp [heq], by simpa [heq] using hl⟩
      · rw [if_pos hl, List.count_cons_of_ne heq] at h
        obtain ⟨j, hj, hdis⟩ := ih (by omega) h
        exact ⟨j + 1, hj, by rwa [← Nat.add_assoc, Nat.add_right_comm]⟩
    · rw [if_neg hl] at h
      have hcount : (keepActive environ outcap (i + 1) found (out ++ [l])).count layer <
          (out ++ [l]).count layer + found.count layer := by
        rw [List.count_append, List.count_singleton, Nat.add_assoc, Nat.add_comm (ite _ _ _)]
        rwa [List.count_cons] at h
      obtain ⟨j, hj, hdis⟩ := ih (by simp; omega) hcount
      exact ⟨j + 1, hj, by rwa [← Nat.add_assoc, Nat.add_right_comm]⟩

/-- A layer that was found is missing from the result only if it is disabled. -/
lemma exists_disabled_of_dropped {fs : LayerFs}
    (h : (acScanActiveImplicitLayers fs environ acMaxImplicitLayers).count layer <
      (foundLayers fs).count layer) :
    ∃ i, (foundLayers fs)[i]? = some layer ∧ isDisabled (environ i) layer = true := by
  have hcap : ([] : List AcImplicitLayer).length + (foundLayers fs).length ≤
      acMaxImplicitLayers := by
    simpa using length_foundLayers_le fs
  have hcount : (keepActive environ acMaxImplicitLayers 0 (foundLayers fs) []).count layer <
      ([] : List AcImplicitLayer).count layer + (foundLayers fs).count layer := by
    simpa [acScanActiveImplicitLayers] using h
  obtain ⟨i, hi, hdis⟩ := exists_disabled_of_count_lt hcap hcount
  exact ⟨i, hi, by rwa [Nat.zero_add] at hdis⟩

end

/-! ### The layer of a manifest -/

/-- The file is read in one call. -/
structure ManifestFile.Whole (file : ManifestFile) (text : Bytes) : Prop where
  regular : file.regular = true
  malloc : file.malloc = true
  content : file.content = text
  read : ∃ n, file.read = some n ∧ text.length ≤ n

lemma ManifestFile.Whole.buf_eq {file : ManifestFile} {text : Bytes} (h : file.Whole text)
    (hne : text ≠ []) (hlen : text.length < acManifestMaxBytes - 1) : file.buf = some text := by
  obtain ⟨n, hn, hle⟩ := h.read
  have htake : text.take (min n (acManifestMaxBytes - 1)) = text :=
    List.take_of_length_le (by omega)
  simp only [ManifestFile.buf, h.regular, h.malloc, hn, h.content, htake]
  rw [if_neg (by decide), if_neg (by decide), if_neg (by simpa using hne)]

/-- The layer that is read from a manifest has the fields of its own object in the document, and is
left out only if the environment of the process sets the variable that this object names: for the
manifests in which what comes first agrees with the layer, and for no other ones. -/
theorem acScanActiveImplicitLayers_own_iff (m : Manifest) (text : Bytes)
    (htext : IsDocument m.doc text) (hlen : text.length < acManifestMaxBytes - 1)
    (file : ManifestFile) (hfile : file.Whole text) (name libraryPath : Str)
    (hname : get? m.layer (bytes "name") = some (.str name))
    (hpath : get? m.layer (bytes "library_path") = some (.str libraryPath)) :
    (file.buf.bind manifestLayer = some ⟨name.value, libraryPath.value, m.disableVar⟩ ∧
      ∀ (fs : LayerFs) (environ : ℕ → EnvironIo) (layer : AcImplicitLayer),
        file.buf.bind manifestLayer = some layer →
        (acScanActiveImplicitLayers fs environ acMaxImplicitLayers).count layer <
          (foundLayers fs).count layer →
        ∃ i var v, (foundLayers fs)[i]? = some layer ∧ m.disableKey = some var ∧
          getEnv (environ i).content var.value = some v) ↔
      m.Agrees := by
  have hread : manifestLayer text = some ⟨name.value, libraryPath.value, m.disableVar⟩ ↔
      m.Agrees :=
    Manifest.manifestLayer_eq_iff htext (by rw [Manifest.ownString, hname]; rfl)
      (by rw [Manifest.ownString, hpath]; rfl)
  rw [hfile.buf_eq htext.ne_nil hlen, Option.bind_some, hread]
  refine and_iff_left_of_imp fun hagrees => ?_
  intro fs environ layer hlayer hdrop
  cases hlayer.symm.trans (hread.mpr hagrees)
  obtain ⟨i, hi, hdis⟩ := exists_disabled_of_dropped hdrop
  obtain ⟨hne, hset⟩ := getEnv_of_isDisabled hdis
  obtain ⟨v, hv⟩ := Option.isSome_iff_exists.mp hset
  cases hk : m.disableKey with
  | none =>
    simp only [Manifest.disableVar, hk] at hne
    exact absurd rfl hne
  | some var =>
    simp only [Manifest.disableVar, hk] at hv
    exact ⟨i, var, v, hi, rfl, hv⟩

/-- A string without escapes. -/
def plainStr (s : String) : Str := Str.plain (bytes s)

/-- A manifest whose layer comes before the names of its extensions. -/
def sampleManifest : Manifest :=
  .ofMember [(plainStr "file_format_version", .str (plainStr "1.0.0"))] (plainStr "layer")
    [(plainStr "name", .str (plainStr "VK_LAYER_X")),
      (plainStr "library_path", .str (plainStr "./x.so")),
      (plainStr "instance_extensions", .arr [.obj [(plainStr "name", .str (plainStr "VK_EXT_y"))]]),
      (plainStr "disable_environment", .obj [(plainStr "DISABLE_X", .str (plainStr "1"))])] []

lemma sampleManifest_clear : sampleManifest.Clear where
  name := ⟨by decide +kernel, by decide +kernel⟩
  libraryPath := ⟨by decide +kernel, by decide +kernel⟩
  disable := ⟨by decide +kernel, by decide +kernel⟩
  var := by
    rintro k hk
    have hkey : sampleManifest.disableKey = some (plainStr "DISABLE_X") := rfl
    cases hkey.symm.trans hk
    decide +kernel

theorem acScanActiveImplicitLayers_own_sample :
    (ManifestFile.mk true true sampleManifest.doc.print (some acManifestMaxBytes)).buf.bind
        manifestLayer = some ⟨bytes "VK_LAYER_X", bytes "./x.so", bytes "DISABLE_X"⟩ ∧
      ∀ (fs : LayerFs) (environ : ℕ → EnvironIo) (layer : AcImplicitLayer),
        (ManifestFile.mk true true sampleManifest.doc.print (some acManifestMaxBytes)).buf.bind
          manifestLayer = some layer →
        (acScanActiveImplicitLayers fs environ acMaxImplicitLayers).count layer <
          (foundLayers fs).count layer →
        ∃ i var v, (foundLayers fs)[i]? = some layer ∧ sampleManifest.disableKey = some var ∧
          getEnv (environ i).content var.value = some v :=
  (acScanActiveImplicitLayers_own_iff sampleManifest sampleManifest.doc.print (isDocument_print _)
    (by decide +kernel) _ ⟨rfl, rfl, rfl, _, rfl, by decide +kernel⟩
    (plainStr "VK_LAYER_X") (plainStr "./x.so") rfl rfl).mpr
    (sampleManifest_clear.agrees rfl ⟨by decide +kernel, by decide +kernel⟩ rfl
      ⟨by decide +kernel, by decide +kernel⟩)

/-- A document that names a variable before its layer, which has none. -/
def strayManifest : Manifest :=
  .ofMember [(plainStr "profile",
      .obj [(plainStr "disable_environment", .obj [(plainStr "PATH", .str (plainStr "1"))])])]
    (plainStr "layer")
    [(plainStr "name", .str (plainStr "VK_LAYER_X")),
      (plainStr "library_path", .str (plainStr "./x.so"))] []

/-- Its text. -/
def strayText : Bytes :=
  bytes "\x7b\"profile\":\x7b\"disable_environment\":\x7b\"PATH\":\"1\"\x7d\x7d," ++
    bytes "\"layer\":\x7b\"name\":\"VK_LAYER_X\",\"library_path\":\"./x.so\"\x7d\x7d"

lemma isDocument_strayText : IsDocument strayManifest.doc strayText := by
  have hprint : strayManifest.doc.print = strayText := by decide +kernel
  rw [← hprint]
  exact isDocument_print _

def strayFile : ManifestFile := ⟨true, true, strayText, some acManifestMaxBytes⟩

/-- One file in one of the directories. -/
def strayFs : LayerFs where
  home := none
  opendir dir := if dir = bytes "/etc/vulkan/implicit_layer.d" then some [bytes "x.json"] else none
  openFile path :=
    if path = bytes "/etc/vulkan/implicit_layer.d/x.json" then some strayFile else none

lemma foundLayers_strayFs :
    foundLayers strayFs = [⟨bytes "VK_LAYER_X", bytes "./x.so", bytes "PATH"⟩] := by
  decide +kernel

/-- The variable of another object is taken for that of the layer, which is left out. -/
theorem acScanActiveImplicitLayers_not_own :
    (IsDocument strayManifest.doc strayText ∧ strayText.length < acManifestMaxBytes - 1 ∧
      strayFile.Whole strayText ∧
      get? strayManifest.layer (bytes "name") = some (.str (plainStr "VK_LAYER_X")) ∧
      Manifest.Fits (plainStr "VK_LAYER_X") ∧
      get? strayManifest.layer (bytes "library_path") = some (.str (plainStr "./x.so")) ∧
      Manifest.Fits (plainStr "./x.so")) ∧
    get? strayManifest.layer (bytes "disable_environment") = none ∧
    foundLayers strayFs = [⟨bytes "VK_LAYER_X", bytes "./x.so", bytes "PATH"⟩] ∧
    acScanActiveImplicitLayers strayFs (fun _ => ⟨true, true, bytes "PATH=/bin", []⟩)
      acMaxImplicitLayers = [] := by
  refine ⟨⟨isDocument_strayText, by decide +kernel, ⟨rfl, rfl, rfl, _, rfl, by decide +kernel⟩, rfl,
    ⟨by decide +kernel, by decide +kernel⟩, rfl, ⟨by decide +kernel, by decide +kernel⟩⟩, rfl,
    foundLayers_strayFs, ?_⟩
  rw [acScanActiveImplicitLayers, foundLayers_strayFs]
  decide +kernel

end Anticheat.Periodic
