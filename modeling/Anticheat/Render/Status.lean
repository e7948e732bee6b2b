import Anticheat.Lib.CText
import Anticheat.Render.Check
import Anticheat.Report.Body

/-!
# The status of each render library

`render_hook_statuses_for` collects the executable mappings of every render library in one pass over
the snapshot, by the names in the paths that the module has copied into it, and checks the libraries
that it finds. A library of which it finds nothing in a complete snapshot is reported as not loaded.
-/

namespace Anticheat.Render

open Hash Baseline Report

/-! ### The code -/

/-- The entries of `AC_RENDER_APIS` -/
inductive RenderApi
  | vulkan
  | glx
  | egl
  deriving DecidableEq, Repr

namespace RenderApi

def soname : RenderApi → Bytes
  | vulkan => bytes "libvulkan.so"
  | glx => bytes "libGL.so"
  | egl => bytes "libEGL.so"

def symbol : RenderApi → Bytes
  | vulkan => bytes "vkQueuePresentKHR"
  | glx => bytes "glXSwapBuffers"
  | egl => bytes "eglSwapBuffers"

end RenderApi

def isdigit (c : UInt8) : Bool := 48 ≤ c && c ≤ 57

/-- What `d_path` appends to the path of an unlinked file. -/
def deleted : Bytes := bytes " (deleted)"

/-- `render_lib_name_matches` -/
def renderLibNameMatches (base soname : Bytes) : Bool :=
  let len := if deleted.isSuffixOf base then base.length - deleted.length else base.length
  if len < soname.length || base.take soname.length ≠ soname then false
  else if len = soname.length then true
  else if base[soname.length]? ≠ some 46 || len = soname.length + 1 then false
  else ((base.take len).drop (soname.length + 1)).all fun c => isdigit c || c = 46

/-- What follows the last slash, or the whole path. -/
def baseName (path : Bytes) : Bytes := (path.reverse.takeWhile (· ≠ 47)).reverse

/-- The mapping is one of the library, by its name in the snapshot. -/
def RenderApi.candidate (k : RenderApi) (vi : AcVmaInfo) : Bool :=
  !(!vi.isFile || vi.path = [] || !vi.exec) && renderLibNameMatches (baseName vi.path) k.soname

/-- What is kept of the entry of a candidate. -/
def renderMap (vi : AcVmaInfo) : AcRenderMap :=
  ⟨vi.start, vi.stop, vi.offset, vi.inode, vi.path⟩

/-- Add a mapping to those found, or note that there is no more room. -/
def AcLibResult.add (res : AcLibResult) (vi : AcVmaInfo) : AcLibResult :=
  if h : acRenderMaxMaps ≤ res.maps.length then { res with incomplete := true }
  else
    { res with
      maps := res.maps ++ [renderMap vi]
      le := by
        rw [List.length_append]
        exact Nat.succ_le_of_lt (Nat.lt_of_not_le h) }

/-- `results` -/
abbrev LibResults := RenderApi → AcLibResult

/-- The body of the loop over the mappings in `find_render_lib_maps`. -/
def LibResults.visit (results : LibResults) (vi : AcVmaInfo) : LibResults :=
  fun k => if k.candidate vi then (results k).add vi else results k

/-- The loop of `find_render_lib_maps`: the results, and whether `AC_IOCTL_SCAN_GET` failed. -/
def findLoop (results : LibResults) : List (Option AcVmaInfo) → LibResults × Bool
  | [] => (results, false)
  | none :: _ => (results, true)
  | some vi :: vs => findLoop (results.visit vi) vs

/-- `find_render_lib_maps` -/
def findRenderLibMaps (scan : Option (Scan AcVmaInfo)) : Option LibResults :=
  match scan with
  | none => none
  | some b =>
    let (results, failed) := findLoop (fun _ => ⟨false, [], Nat.zero_le _⟩) (b.vmas.take acMaxVmas)
    if b.truncated || acMaxVmas < b.vmas.length || failed then
      some fun k => { results k with incomplete := true }
    else some results

/-- A process, and what the scans of it give. -/
structure Process where
  alive : Bool
  mem : ProcMem
  stat : UInt64 → UInt64 → Option MapStat
  openFile : UInt64 → UInt64 → Option MapFile
  scan : Option (Scan AcVmaInfo)

namespace Process

variable (p : Process)

/-- The snapshot with the identity of each mapping's file. -/
def scanned : Option (Scan (Scanned AcMapId)) :=
  p.scan.map fun b =>
    ⟨b.vmas.map (Option.map fun vi => ⟨vi, mapFileIdentity (p.stat vi.start vi.stop)⟩),
      b.truncated⟩

def target : Target where
  alive := p.alive
  mem := p.mem
  stat := p.stat
  openFile := p.openFile
  inLoad := renderAddrInLoad p.scanned

end Process

/-- `render_hook_statuses_for`: the entries of `statuses` and `libpaths`. `calloc` is whether the
results were allocated, and `find` is `elf_find_symbol_offset` by symbol and content. -/
def renderHookStatusesFor (find : Bytes → Bytes → Option (AcElfLoc × UInt64)) (calloc : Bool)
    (p : Process) (k : RenderApi) : HookStatus × Bytes :=
  if !calloc then (.inconclusive, [])
  else
    match findRenderLibMaps p.scan with
    | none => (.inconclusive, [])
    | some results =>
      if (results k).maps = [] then
        (if (results k).incomplete then .inconclusive else .notLoaded, [])
      else checkRenderLib (find k.symbol) p.target (results k)

/-! ### What is found -/

section Find

variable {k : RenderApi}

@[simp] theorem AcLibResult.maps_add_ne_nil (res : AcLibResult) (vi : AcVmaInfo) :
    (res.add vi).maps ≠ [] := by
  unfold add
  split_ifs with h
  · intro hnil
    rw [hnil] at h
    exact absurd h (by decide)
  · simp

theorem LibResults.maps_visit_eq_nil_iff (results : LibResults) (vi : AcVmaInfo) :
    (results.visit vi k).maps = [] ↔ (results k).maps = [] ∧ k.candidate vi = false := by
  unfold visit
  cases k.candidate vi <;> simp

/-- Something is found exactly if some mapping is a candidate. -/
theorem maps_findLoop_eq_nil_iff (results : LibResults) (vs : List AcVmaInfo) :
    ((findLoop results (vs.map some)).1 k).maps = [] ↔
      (results k).maps = [] ∧ ∀ vi ∈ vs, k.candidate vi = false := by
  induction vs generalizing results with
  | nil => simp [findLoop]
  | cons vi vs ih =>
    rw [List.map_cons, findLoop, ih, LibResults.maps_visit_eq_nil_iff, List.forall_mem_cons,
      and_assoc]

theorem findLoop_snd (results : LibResults) (vs : List AcVmaInfo) :
    (findLoop results (vs.map some)).2 = false := by
  induction vs generalizing results with
  | nil => rfl
  | cons vi vs ih => exact ih _

/-- The list is only incomplete if there is something in it. -/
theorem incomplete_findLoop (results : LibResults) (vs : List AcVmaInfo)
    (h : (results k).maps = [] → (results k).incomplete = false) :
    ((findLoop results (vs.map some)).1 k).maps = [] →
      ((findLoop results (vs.map some)).1 k).incomplete = false := by
  induction vs generalizing results with
  | nil => exact h
  | cons vi vs ih =>
    refine ih _ fun hnil => ?_
    obtain ⟨hnil, hcand⟩ := (LibResults.maps_visit_eq_nil_iff results vi).1 hnil
    rw [LibResults.visit, hcand]
    exact h hnil

end Find

/-- The check of a library that was found never says that it is not loaded. -/
theorem checkRenderLib_ne_notLoaded (find : Bytes → Option (AcElfLoc × UInt64)) (t : Target)
    (res : AcLibResult) : (checkRenderLib find t res).1 ≠ .notLoaded := by
  unfold checkRenderLib
  dsimp only
  split_ifs
  · simp
  · cases t.mem with
    | none => simp
    | some mem =>
      dsimp only
      unfold LibFlags.status
      split_ifs <;> simp

/-! ### Which libraries are loaded -/

/-- A mapping with the full path of its file, which `d_path` gives unless it fails. -/
structure NamedVma where
  vma : Vma
  full : Bytes
  lookup : ∀ f ∈ vma.file, f.path = full ∨ f.path = []

/-- Groups of digits with dots between them. -/
inductive DottedVersion : Bytes → Prop
  | digits {g} : g ≠ [] → g.all isdigit → DottedVersion g
  | dot {g ver} : g ≠ [] → g.all isdigit → DottedVersion ver → DottedVersion (g ++ 46 :: ver)

/-- The name of a library: the soname, or the soname with a version. -/
def NamesLib (base soname : Bytes) : Prop :=
  base = soname ∨ ∃ ver, DottedVersion ver ∧ base = soname ++ 46 :: ver

/-- The mapping is an executable one of a file with the library's name. -/
structure NamedVma.Loads (m : NamedVma) (k : RenderApi) : Prop where
  exec : m.vma.exec = true
  file : m.vma.file.isSome
  name : NamesLib (baseName m.full) k.soname

/-- What the scans of a process with these mappings give. -/
def snapshot (pathbuf : Bool) (ms : List NamedVma) : Scan AcVmaInfo :=
  let (vmas, truncated) := acBuildVmaSnapshot pathbuf (ms.map NamedVma.vma)
  ⟨vmas.map some, truncated⟩

section NotLoaded

variable (k : RenderApi) (pathbuf : Bool) (ms : List NamedVma)

/-- Nothing is found, and nothing may be missing, if the whole snapshot holds no candidate. -/
theorem findRenderLibMaps_snapshot :
    ∃ results, findRenderLibMaps (some (snapshot pathbuf ms)) = some results ∧
      ((results k).maps = [] ∧ (results k).incomplete = false ↔
        ms.length ≤ acMaxVmas ∧ ∀ m ∈ ms, k.candidate (m.vma.info pathbuf) = false) := by
  let vmas := ((ms.map NamedVma.vma).take acMaxVmas).map (Vma.info pathbuf)
  have hvmas : (snapshot pathbuf ms).vmas.take acMaxVmas = vmas.map some := by
    simp [vmas, snapshot, acBuildVmaSnapshot, ← List.map_take, List.take_take]
  have hlen : ¬ acMaxVmas < (snapshot pathbuf ms).vmas.length := by
    simp [snapshot, acBuildVmaSnapshot]
  have htrunc : (snapshot pathbuf ms).truncated = decide (acMaxVmas < ms.length) := by
    simp [snapshot, acBuildVmaSnapshot]
  simp only [findRenderLibMaps, hvmas, findLoop_snd, htrunc, hlen, decide_false, Bool.or_false,
    decide_eq_true_eq]
  split_ifs with hcut
  · exact ⟨_, rfl, by simp [Nat.not_le.2 hcut]⟩
  · refine ⟨_, rfl, ?_⟩
    have hfits : ms.length ≤ acMaxVmas := Nat.le_of_not_lt hcut
    have hall : vmas = ms.map fun m => m.vma.info pathbuf := by
      simp only [vmas]
      rw [List.take_of_length_le (by simpa using hfits), List.map_map]
      rfl
    rw [and_iff_left_of_imp (incomplete_findLoop _ _ fun _ => rfl), maps_findLoop_eq_nil_iff, hall]
    simp [hfits]

variable (find : Bytes → Bytes → Option (AcElfLoc × UInt64)) (calloc : Bool) (p : Process)

theorem status_eq_notLoaded_iff :
    (renderHookStatusesFor find calloc { p with scan := some (snapshot pathbuf ms) } k).1 =
        .notLoaded ↔
      calloc = true ∧ ms.length ≤ acMaxVmas ∧
        ∀ m ∈ ms, k.candidate (m.vma.info pathbuf) = false := by
  obtain ⟨results, hfind, hiff⟩ := findRenderLibMaps_snapshot k pathbuf ms
  rw [← hiff]
  unfold renderHookStatusesFor
  rw [hfind]
  cases calloc with
  | false => simp
  | true =>
    by_cases hnil : (results k).maps = []
    · cases hinc : (results k).incomplete <;> simp [hnil, hinc]
    · simp [hnil, checkRenderLib_ne_notLoaded]

end NotLoaded

/-- The Vulkan loader, in a directory whose name alone fills the path of an entry. -/
def longPath : NamedVma where
  vma :=
    { start := 0x1000
      stop := 0x2000
      pgoff := 0
      exec := true
      file := some ⟨7, 47 :: (List.replicate 126 97 ++ bytes "/libvulkan.so.1")⟩
      lt := by decide
      range := by decide }
  full := 47 :: (List.replicate 126 97 ++ bytes "/libvulkan.so.1")
  lookup := by simp

def longPathProcess : Process where
  alive := true
  mem := none
  stat := fun _ _ => none
  openFile := fun _ _ => none
  scan := some (snapshot true [longPath])

end Anticheat.Render
