import Anticheat.Lib.OncePerStay
import Anticheat.Periodic.AnonExec
import Anticheat.Periodic.Environ

/-!
# Warnings about the environment

`check_ld_preload_periodic` and `check_vk_layers_periodic` look at the environment of every
protected process and warn at most once about each, as long as it stays protected. The first marks
a process when it has warned about it. The second marks it when it has read its environment, so
that a process that was started without a watched variable is not looked at again.
-/

namespace Anticheat.Periodic

open SlotTable
open CText (Bytes)
open Report (bytes)

/-- A listed process, and what the daemon meets when it reads its environment. -/
abbrev Visit := AcProtItem × EnvironIo

/-- What the kernel answers during one check. -/
structure Check where
  items : List Visit

/-- The entries of the list that are looked at. -/
def Check.visits (c : Check) : List Visit := c.items.take acMaxProts

/-- The lines that the two checks write. -/
inductive WarnLine where
  | protsTruncated (reported : ℕ)
  | ldPreload (pid : ℤ) (comm : String) (val : Bytes)
  | vkLayer (pid : ℤ) (comm : String) (name value : Bytes)
  deriving DecidableEq, Repr

/-- The process a warning is about. -/
def WarnLine.pid? : WarnLine → Option ℤ
  | .protsTruncated _ => none
  | .ldPreload pid _ _ => some pid
  | .vkLayer pid _ _ _ => some pid

def WarnLine.text : WarnLine → String
  | .protsTruncated reported => "kernel reported " ++ toString reported ++
      " protected processes (max " ++ toString acMaxProts ++ "); truncating"
  | .ldPreload pid comm val => "pid " ++ toString pid ++ " (" ++ comm ++ "): LD_PRELOAD=" ++
      bytesText val ++ " set at exec -- common for legitimate overlay/compat tools (MangoHud, " ++
      "gamemode, gamescope) as well as library-injection hooking; informational only, not a " ++
      "verdict on its own"
  | .vkLayer pid comm name value => "pid " ++ toString pid ++ " (" ++ comm ++ "): " ++
      bytesText name ++ "=" ++ bytesText value ++ " set at exec -- common for legitimate " ++
      "overlay tools (MangoHud) as well as Vulkan-layer-based hooking; informational only, " ++
      "not a verdict on its own"

/-! ### The tables -/

/-- `g_preload_warned` and `g_vklayer_warned` -/
abbrev WarnedTable := Table acMaxProts ℤ Unit

def warnedForgetStale (t : WarnedTable) (pl : List AcProtItem) : WarnedTable :=
  forget t fun pid => pl.any (·.pid = pid)

def alreadyWarned (t : WarnedTable) (pid : ℤ) : Bool := (find? t pid).isSome

def markWarned (t : WarnedTable) (pid : ℤ) : WarnedTable := record t pid ()

/-- `preload_warned_forget_stale` -/
def preloadWarnedForgetStale := warnedForgetStale

/-- `preload_already_warned` -/
def preloadAlreadyWarned := alreadyWarned

/-- `preload_mark_warned` -/
def preloadMarkWarned := markWarned

/-- `vklayer_warned_forget_stale` -/
def vklayerWarnedForgetStale := warnedForgetStale

/-- `vklayer_already_warned` -/
def vklayerAlreadyWarned := alreadyWarned

/-- `vklayer_mark_warned` -/
def vklayerMarkWarned := markWarned

/-! ### The checks -/

def ldPreloadName : Bytes := bytes "LD_PRELOAD"

/-- `AC_VK_LAYER_ENV_VARS` -/
def acVkLayerEnvVars : List Bytes :=
  [bytes "VK_INSTANCE_LAYERS", bytes "VK_LOADER_LAYERS_ENABLE", bytes "VK_LAYER_PATH",
    bytes "VK_ADD_LAYER_PATH"]

/-- `ac_read_ld_preload`: the result and, if it is 1, the value. -/
def acReadLdPreload (io : EnvironIo) (outsz : ℕ) : ℤ × Bytes :=
  match acReadEnvironVars io [⟨ldPreloadName, false, []⟩] with
  | (rc, q :: _) =>
    if rc < 0 then (-1, [])
    else if !q.found then (0, [])
    else (1, q.value.take (outsz - 1))
  | (_, []) => (-1, [])

/-- The body of the loop of `check_ld_preload_periodic`. -/
def checkLdPreloadItem (t : WarnedTable) (v : Visit) : WarnedTable × List WarnLine :=
  if preloadAlreadyWarned t v.1.pid then (t, [])
  else
    let (rc, val) := acReadLdPreload v.2 512
    if rc ≠ 1 then (t, [])
    else (preloadMarkWarned t v.1.pid, [.ldPreload v.1.pid v.1.comm val])

/-- The body of the loop of `check_vk_layers_periodic`. -/
def checkVkLayersItem (t : WarnedTable) (v : Visit) : WarnedTable × List WarnLine :=
  if vklayerAlreadyWarned t v.1.pid then (t, [])
  else
    let (rc, vars) := acReadEnvironVars v.2 (acVkLayerEnvVars.map fun name => ⟨name, false, []⟩)
    if rc < 0 then (t, [])
    else
      (vklayerMarkWarned t v.1.pid,
        (vars.filter (·.found)).map fun q => .vkLayer v.1.pid v.1.comm q.name q.value)

section

variable (body : WarnedTable → Visit → WarnedTable × List WarnLine)

/-- The loop over the list. -/
def checkLoop : List Visit → WarnedTable → WarnedTable × List WarnLine
  | [], t => (t, [])
  | v :: vs, t =>
    let (t, log) := body t v
    let (t, rest) := checkLoop vs t
    (t, log ++ rest)

/-- A check; it does nothing if the list cannot be had. -/
def checkPeriodic (forgetStale : WarnedTable → List AcProtItem → WarnedTable)
    (t : WarnedTable) : Option Check → WarnedTable × List WarnLine
  | none => (t, [])
  | some c =>
    let (t, log) := checkLoop body c.visits (forgetStale t (c.visits.map Prod.fst))
    (t, (if acMaxProts < c.items.length then [.protsTruncated c.items.length] else []) ++ log)

end

/-- `check_ld_preload_periodic` -/
def checkLdPreloadPeriodic := checkPeriodic checkLdPreloadItem preloadWarnedForgetStale

/-- `check_vk_layers_periodic` -/
def checkVkLayersPeriodic := checkPeriodic checkVkLayersItem vklayerWarnedForgetStale

/-! ### Histories -/

/-- The checks that got a list, with the lines they wrote, and the table at the end. -/
def history (check : WarnedTable → Option Check → WarnedTable × List WarnLine)
    (cs : List (Option Check)) : WarnedTable × List (Check × List WarnLine) :=
  cs.foldl (fun s c => ((check s.1 c).1,
    s.2 ++ (c.map fun c' => (c', (check s.1 c).2)).toList)) (empty, [])

/-- The checks since a process last entered the list. -/
def stay (pid : ℤ) (hist : List (Check × List WarnLine)) : List (Check × List WarnLine) :=
  hist.rtakeWhile fun e => e.1.visits.any (·.1.pid = pid)

/-- The process has received a warning since it last entered the list. -/
def WarnedInStay (pid : ℤ) (hist : List (Check × List WarnLine)) : Prop :=
  ∃ e ∈ stay pid hist, ∃ line ∈ e.2, line.pid? = some pid

/-- The visits of a process since it last entered the list. -/
def visitsInStay (pid : ℤ) (hist : List (Check × List WarnLine)) : List Visit :=
  (stay pid hist).flatMap fun e => e.1.visits.filter (·.1.pid = pid)

/-! ### Both checks give out the first answer of a stay -/

section

variable (answer : Visit → Option (List WarnLine))

/-- What both loops do with a process, if `answer` are the lines for it. -/
def onceItem (t : WarnedTable) (v : Visit) : WarnedTable × List WarnLine :=
  if alreadyWarned t v.1.pid then (t, [])
  else
    match answer v with
    | none => (t, [])
    | some lines => (markWarned t v.1.pid, lines)

/-- The processes of a check with the lines for them. -/
def look (c : Check) : List (ℤ × Option (List WarnLine)) :=
  c.visits.map fun v => (v.1.pid, answer v)

/-- The lines of a check that has given out some answers. -/
def logged (e : Check × List (ℤ × List WarnLine)) : Check × List WarnLine :=
  (e.1, (if acMaxProts < e.1.items.length then [.protsTruncated e.1.items.length] else []) ++
    e.2.flatMap Prod.snd)

variable {answer}

lemma checkLoop_onceItem (vs : List Visit) (t : WarnedTable) :
    checkLoop (onceItem answer) vs t =
      ((OncePerStay.visits (vs.map fun v => (v.1.pid, answer v)) t).1,
        (OncePerStay.visits (vs.map fun v => (v.1.pid, answer v)) t).2.flatMap Prod.snd) := by
  induction vs generalizing t with
  | nil => rfl
  | cons v vs ih =>
    have hitem : onceItem answer t v = ((OncePerStay.visit t v.1.pid (answer v)).1,
        (OncePerStay.visit t v.1.pid (answer v)).2.flatMap Prod.snd) := by
      cases hv : answer v <;> rw [onceItem, OncePerStay.visit, alreadyWarned] <;>
        split_ifs <;> simp [hv, markWarned]
    simp only [checkLoop, hitem, ih, List.map_cons, OncePerStay.visits, List.flatMap_append]

lemma history_onceItem (cs : List (Option Check)) :
    history (checkPeriodic (onceItem answer) warnedForgetStale) cs =
      ((OncePerStay.rounds acMaxProts (look answer) cs.reduceOption).1,
        (OncePerStay.rounds acMaxProts (look answer) cs.reduceOption).2.map logged) := by
  induction cs using List.reverseRecOn with
  | nil => rfl
  | append_singleton cs c ih =>
    rw [history, List.foldl_append, ← history, ih, List.foldl_cons, List.foldl_nil,
      List.reduceOption_append, List.reduceOption_singleton]
    cases c with
    | none => simp [checkPeriodic]
    | some c =>
      have hforget : ∀ t, warnedForgetStale t (c.visits.map Prod.fst) =
          forget t fun pid => (look answer c).any (·.1 = pid) := by
        intro t
        simp [warnedForgetStale, look, List.any_map, Function.comp_def]
      rw [Option.toList_some, OncePerStay.rounds_append]
      simp only [checkPeriodic, hforget, checkLoop_onceItem, Option.map_some, Option.toList_some,
        OncePerStay.round, look, List.map_append, List.map_cons, List.map_nil, logged]

variable (answer) in
lemma stay_map_logged (pid : ℤ) (hist : List (Check × List (ℤ × List WarnLine))) :
    stay pid (hist.map logged) = (OncePerStay.stay (look answer) pid hist).map logged := by
  simp only [stay, OncePerStay.stay, List.rtakeWhile, ← List.map_reverse, List.takeWhile_map,
    Function.comp_def, look, List.any_map]
  rfl

lemma answers_look (pid : ℤ) (c : Check) :
    OncePerStay.answers pid (look answer c) =
      (c.visits.filter (·.1.pid = pid)).filterMap answer := by
  rw [OncePerStay.answers, look, List.filterMap_map, List.filterMap_filter]
  refine List.filterMap_congr fun v _ => ?_
  simp

variable (answer) in
/-- The answers since a process entered the list are those of its visits since then. -/
lemma flatMap_answers_look (pid : ℤ) (hist : List (Check × List (ℤ × List WarnLine))) :
    (OncePerStay.stay (look answer) pid hist).flatMap
        (fun e => OncePerStay.answers pid (look answer e.1)) =
      (visitsInStay pid (hist.map logged)).filterMap answer := by
  rw [visitsInStay, stay_map_logged answer, List.flatMap_map, List.filterMap_flatMap]
  simp only [answers_look]
  rfl

/-- A process has been warned about since it entered the list exactly if the first answer of its
visits since then has a line. -/
lemma warnedInStay_iff
    (habout : ∀ v lines, answer v = some lines → ∀ line ∈ lines, line.pid? = some v.1.pid)
    (cs : List (Option Check)) (pid : ℤ) {hist : List (Check × List WarnLine)}
    (hhist : hist = (history (checkPeriodic (onceItem answer) warnedForgetStale) cs).2) :
    WarnedInStay pid hist ↔ ∃ lines ∈ (visitsInStay pid hist).findSome? answer, lines ≠ [] := by
  obtain ⟨-, hkeys⟩ := OncePerStay.rounds_spec (n := acMaxProts) cs.reduceOption
    (fun c _ => show (look answer c).length ≤ _ by simp [look, Check.visits])
  obtain ⟨-, hgiven⟩ := hkeys pid
  set rhist := (OncePerStay.rounds acMaxProts (look answer) cs.reduceOption).2 with hrhist
  have hlogged : hist = rhist.map logged := by rw [hhist, history_onceItem]
  rw [flatMap_answers_look, ← hlogged, List.head?_filterMap] at hgiven
  have hfirst : ∀ lines, lines ∈ (visitsInStay pid hist).findSome? answer ↔
      lines ∈ (OncePerStay.stay (look answer) pid rhist).flatMap
        fun e => OncePerStay.given pid e.2 := by
    intro lines
    simp [hgiven]
  simp only [hfirst]
  rw [WarnedInStay, hlogged, stay_map_logged answer]
  -- what was given out is about the process it was given out for
  have hpid : ∀ e ∈ OncePerStay.stay (look answer) pid rhist,
      ∀ o ∈ e.2, ∀ line ∈ o.2, line.pid? = some o.1 := by
    intro e he o ho
    have he' := (List.rtakeWhile_suffix _ _).subset he
    obtain ⟨v, -, hv⟩ := List.mem_map.mp (OncePerStay.mem_of_mem_rounds he' ho)
    obtain ⟨hk, ha⟩ := Prod.mk.inj hv
    rw [← hk]
    exact habout v o.2 ha
  constructor
  · rintro ⟨e', he', line, hline, habout⟩
    obtain ⟨e, he, rfl⟩ := List.mem_map.mp he'
    obtain hline | hline := List.mem_append.mp hline
    · split_ifs at hline
      · obtain rfl := List.mem_singleton.mp hline
        cases habout
      · cases hline
    · obtain ⟨o, ho, hline⟩ := List.mem_flatMap.mp hline
      have hkey : o.1 = pid := Option.some.inj ((hpid e he o ho line hline).symm.trans habout)
      refine ⟨o.2, List.mem_flatMap.mpr ⟨e, he, ?_⟩, List.ne_nil_of_mem hline⟩
      exact List.mem_filterMap.mpr ⟨o, ho, if_pos hkey⟩
  · rintro ⟨lines, hlines, hne⟩
    obtain ⟨e, he, hlines⟩ := List.mem_flatMap.mp hlines
    obtain ⟨o, ho, hkey⟩ := List.mem_filterMap.mp hlines
    split_ifs at hkey with hk
    cases hkey
    obtain ⟨line, hline⟩ := List.exists_mem_of_ne_nil _ hne
    refine ⟨logged e, List.mem_map_of_mem he, line, List.mem_append.mpr (.inr ?_), ?_⟩
    · exact List.mem_flatMap.mpr ⟨o, ho, hline⟩
    · rw [hpid e he o ho line hline, hk]

end

/-! ### What the two checks find out about a process -/

def ldPreloadAnswer (v : Visit) : Option (List WarnLine) :=
  if (acReadLdPreload v.2 512).1 ≠ 1 then none
  else some [.ldPreload v.1.pid v.1.comm (acReadLdPreload v.2 512).2]

def vkLayersAnswer (v : Visit) : Option (List WarnLine) :=
  let (rc, vars) := acReadEnvironVars v.2 (acVkLayerEnvVars.map fun name => ⟨name, false, []⟩)
  if rc < 0 then none
  else some ((vars.filter (·.found)).map fun q => .vkLayer v.1.pid v.1.comm q.name q.value)

lemma checkLdPreloadItem_eq : checkLdPreloadItem = onceItem ldPreloadAnswer := by
  funext t v
  rw [checkLdPreloadItem, onceItem, ldPreloadAnswer, preloadAlreadyWarned, preloadMarkWarned]
  simp only
  split_ifs <;> rfl

lemma checkVkLayersItem_eq : checkVkLayersItem = onceItem vkLayersAnswer := by
  funext t v
  rw [checkVkLayersItem, onceItem, vkLayersAnswer, vklayerAlreadyWarned, vklayerMarkWarned]
  simp only
  split_ifs <;> rfl

/-- `LD_PRELOAD` has an answer if it is set, and the answer is a line. -/
lemma ldPreloadAnswer_isSome {v : Visit} (hfull : v.2.Full)
    (hset : (getEnv v.2.content ldPreloadName).isSome = true) :
    (ldPreloadAnswer v).isSome = true := by
  obtain ⟨val, hval⟩ := Option.isSome_iff_exists.mp hset
  simp [ldPreloadAnswer, acReadLdPreload, acReadEnvironVars_of_full hfull, AcEnvironQuery.fill,
    hval]

lemma ldPreloadAnswer_eq_some {v : Visit} {lines : List WarnLine}
    (h : ldPreloadAnswer v = some lines) :
    lines ≠ [] ∧ ∀ line ∈ lines, line.pid? = some v.1.pid := by
  rw [ldPreloadAnswer] at h
  split_ifs at h
  cases h
  simp [WarnLine.pid?]

/-- The layers have an answer as soon as the environment is read, whether a variable is set or
not. -/
lemma vkLayersAnswer_of_full {v : Visit} (h : v.2.Full) :
    ∃ lines, vkLayersAnswer v = some lines ∧
      (lines ≠ [] ↔ ∃ name ∈ acVkLayerEnvVars, (getEnv v.2.content name).isSome = true) := by
  refine ⟨_, by simp only [vkLayersAnswer, acReadEnvironVars_of_full h]; rfl, ?_⟩
  simp only [ne_eq, List.map_eq_nil_iff, List.filter_eq_nil_iff, List.forall_mem_map,
    AcEnvironQuery.fill_found, not_forall, not_not, exists_prop]

lemma vkLayersAnswer_of_not_full {v : Visit} (h : ¬ v.2.Full) : vkLayersAnswer v = none := by
  simp [vkLayersAnswer, acReadEnvironVars_of_not_full h]

lemma vkLayersAnswer_eq_some {v : Visit} {lines : List WarnLine}
    (h : vkLayersAnswer v = some lines) : ∀ line ∈ lines, line.pid? = some v.1.pid := by
  rw [vkLayersAnswer] at h
  simp only at h
  split_ifs at h
  cases h
  intro line hline
  obtain ⟨q, -, rfl⟩ := List.mem_map.mp hline
  rfl

/-! ### The warnings of a stay -/

/-- At the first of the visits that reads an environment in full, one of the names is set. -/
def FirstReadSets (names : List Bytes) (vs : List Visit) : Prop :=
  ∃ pre v post, vs = pre ++ v :: post ∧ (∀ u ∈ pre, ¬ u.2.Full) ∧ v.2.Full ∧
    ∃ name ∈ names, (getEnv v.2.content name).isSome = true

lemma warnedInStay_vkLayers (cs : List (Option Check)) (pid : ℤ) :
    WarnedInStay pid (history checkVkLayersPeriodic cs).2 ↔
      FirstReadSets acVkLayerEnvVars
        (visitsInStay pid (history checkVkLayersPeriodic cs).2) := by
  have hcheck : checkVkLayersPeriodic =
      checkPeriodic (onceItem vkLayersAnswer) warnedForgetStale := by
    rw [← checkVkLayersItem_eq]
    rfl
  rw [warnedInStay_iff (fun v lines h => vkLayersAnswer_eq_some h) cs pid (by rw [hcheck])]
  constructor
  · rintro ⟨lines, hlines, hne⟩
    obtain ⟨pre, v, post, hsplit, hv, hpre⟩ := List.findSome?_eq_some_iff.mp hlines
    have hfull : v.2.Full := by
      by_contra hnot
      rw [vkLayersAnswer_of_not_full hnot] at hv
      cases hv
    obtain ⟨lines', hv', hiff⟩ := vkLayersAnswer_of_full hfull
    cases hv.symm.trans hv'
    refine ⟨pre, v, post, hsplit, fun u hu hfull => ?_, hfull, hiff.mp hne⟩
    obtain ⟨_, hu', -⟩ := vkLayersAnswer_of_full hfull
    cases (hpre u hu).symm.trans hu'
  · rintro ⟨pre, v, post, hsplit, hpre, hfull, hset⟩
    obtain ⟨lines, hv, hiff⟩ := vkLayersAnswer_of_full hfull
    refine ⟨lines, List.findSome?_eq_some_iff.mpr ⟨pre, v, post, hsplit, hv, ?_⟩, hiff.mpr hset⟩
    exact fun u hu => vkLayersAnswer_of_not_full (hpre u hu)

lemma warnedInStay_ldPreload {cs : List (Option Check)} {v : Visit}
    (hv : v ∈ visitsInStay v.1.pid (history checkLdPreloadPeriodic cs).2) (hfull : v.2.Full)
    (hset : (getEnv v.2.content ldPreloadName).isSome = true) :
    WarnedInStay v.1.pid (history checkLdPreloadPeriodic cs).2 := by
  have hcheck : checkLdPreloadPeriodic =
      checkPeriodic (onceItem ldPreloadAnswer) warnedForgetStale := by
    rw [← checkLdPreloadItem_eq]
    rfl
  rw [warnedInStay_iff (fun v lines h => (ldPreloadAnswer_eq_some h).2) cs _ (by rw [hcheck])]
  have hsome := List.findSome?_isSome_iff.mpr ⟨v, hv, ldPreloadAnswer_isSome hfull hset⟩
  obtain ⟨lines, hlines⟩ := Option.isSome_iff_exists.mp hsome
  obtain ⟨u, -, hu⟩ := List.exists_of_findSome?_eq_some hlines
  exact ⟨lines, hlines, (ldPreloadAnswer_eq_some hu).1⟩

/-- A visit of the last check belongs to the stay of its process. -/
lemma mem_visitsInStay {check : WarnedTable → Option Check → WarnedTable × List WarnLine}
    {cs : List (Option Check)} {c : Check} {v : Visit} (hv : v ∈ c.visits) :
    v ∈ visitsInStay v.1.pid (history check (cs ++ [some c])).2 := by
  obtain ⟨log, hlog⟩ : ∃ log,
      (history check (cs ++ [some c])).2 = (history check cs).2 ++ [(c, log)] :=
    ⟨_, by rw [history, List.foldl_append]; rfl⟩
  have hlisted : c.visits.any (·.1.pid = v.1.pid) = true :=
    List.any_eq_true.mpr ⟨v, hv, decide_eq_true rfl⟩
  rw [hlog, visitsInStay, stay, List.rtakeWhile_concat, if_pos hlisted]
  refine List.mem_flatMap.mpr ⟨(c, log), by simp, ?_⟩
  exact List.mem_filter.mpr ⟨hv, decide_eq_true rfl⟩

/-- If a check reads the environment of a listed process in full and finds `LD_PRELOAD` set, the
process has been warned about since it entered the list. For the layer variables this holds
exactly if one of them was set already when the environment was first read in full. -/
theorem warned_of_set (cs : List (Option Check)) (c : Check) (v : Visit) (hv : v ∈ c.visits)
    (hfull : v.2.Full) :
    ((getEnv v.2.content ldPreloadName).isSome = true →
      WarnedInStay v.1.pid (history checkLdPreloadPeriodic (cs ++ [some c])).2) ∧
    ((∃ name ∈ acVkLayerEnvVars, (getEnv v.2.content name).isSome = true) →
      (WarnedInStay v.1.pid (history checkVkLayersPeriodic (cs ++ [some c])).2 ↔
        FirstReadSets acVkLayerEnvVars
          (visitsInStay v.1.pid (history checkVkLayersPeriodic (cs ++ [some c])).2))) :=
  ⟨warnedInStay_ldPreload (mem_visitsInStay hv) hfull, fun _ => warnedInStay_vkLayers _ _⟩

/-- A check of one process with a given environment. -/
def Check.single (content : Bytes) : Check := ⟨[(⟨7, false, "game"⟩, ⟨true, true, content, []⟩)]⟩

lemma full_of_length_lt {content : Bytes} (h : content.length < acEnvironBuf - 1) :
    EnvironIo.Full ⟨true, true, content, []⟩ := by
  refine ⟨rfl, rfl, ?_, h⟩
  exact congrArg some (List.take_of_length_le (Nat.le_of_lt h))

theorem warned_of_set_first :
    WarnedInStay 7 (history checkLdPreloadPeriodic
      [some (.single []), none, some (.single (bytes "LD_PRELOAD=x"))]).2 :=
  (warned_of_set [some (.single []), none] (.single (bytes "LD_PRELOAD=x")) _
    (List.mem_singleton.mpr rfl) (full_of_length_lt (by decide))).1 (by decide)

/-- A process that is started without a layer variable and then executes another program with one,
still protected, is not warned about. -/
theorem not_warned_of_set_later :
    EnvironIo.Full ⟨true, true, bytes "VK_INSTANCE_LAYERS=x", []⟩ ∧
    (getEnv (bytes "VK_INSTANCE_LAYERS=x") (bytes "VK_INSTANCE_LAYERS")).isSome = true ∧
    ¬ WarnedInStay 7 (history checkVkLayersPeriodic
      [some (.single []), some (.single (bytes "VK_INSTANCE_LAYERS=x"))]).2 := by
  refine ⟨full_of_length_lt (by decide), by decide, ?_⟩
  rw [warnedInStay_vkLayers]
  rintro ⟨pre, v, post, hsplit, hpre, -, hset⟩
  have hvisits : visitsInStay 7 (history checkVkLayersPeriodic
      [some (.single []), some (.single (bytes "VK_INSTANCE_LAYERS=x"))]).2 =
        [(⟨7, false, "game"⟩, ⟨true, true, [], []⟩),
          (⟨7, false, "game"⟩, ⟨true, true, bytes "VK_INSTANCE_LAYERS=x", []⟩)] := rfl
  rw [hvisits] at hsplit
  cases pre with
  | nil =>
    -- at the first visit no variable is set
    cases hsplit
    revert hset
    decide
  | cons u pre =>
    -- the first visit reads the environment in full
    obtain rfl := (List.cons.inj hsplit).1
    exact hpre _ List.mem_cons_self (full_of_length_lt (by decide))

end Anticheat.Periodic
