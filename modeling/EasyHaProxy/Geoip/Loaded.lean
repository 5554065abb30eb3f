import EasyHaProxy.Lib.Machine
import EasyHaProxy.Geoip.Scripts

/-! Updates in any order, each with its own database, selection and ending, while HAProxy starts, stops and
reloads. HAProxy reads the lists under `current/` when it starts and when it reloads. -/
namespace EasyHaProxy.Geoip.Loaded

variable {δ β : Type} [DecidableEq δ] (sha : Sha δ) (format : Format β)

inductive Op (β : Type)
  | update (args : Args) (env : Env) (ending : Ending)
  | select (content : Stored β)
  | start
  | stop
  | reload

def step (w : World δ β) : Op β → World δ β
  | .update args env ending => w.update sha format args env ending
  | .select content => { w with selection := content }
  | .start => if w.loaded.isNone then { w with loaded := w.installed } else w
  | .stop => { w with loaded := none }
  | .reload => if w.loaded.isSome then w.load else w

/-- A running HAProxy has the lists `current` leads to. -/
def Synced (w : World δ β) : Prop := ∀ lists, w.loaded = some lists → w.installed = some lists

/-- After a run that returns, with filtering enabled and reloads not skipped. -/
def Filters (w : World δ β) : Op β → Prop
  | .update args env ending =>
    w.returns sha format args env ending = true → (w.chosen format args).any (·.2) = true → args.skipReload = false →
      Synced (w.update sha format args env ending)
  | _ => True

def newLists (w : World δ β) (env : Env) (product : Product δ) : Option Lists :=
  ((w.play (w.publishing env product)).lookup product.id).bind (·.lists)

/-- The run gets as far as the switch. -/
def Reaches (ending : Ending) : Prop :=
  ending.stop ≠ some .openBuild ∧ ending.stop ≠ some .publish ∧ ending.stop ≠ some .switch

/-- From the switch on, the run goes on until HAProxy has the lists that `current` leads to. -/
structure Follows (w : World δ β) (args : Args) (env : Env) (ending : Ending) (product : Product δ) : Prop where
  guarded : w.guarded args product = true
  links : ending.stop ≠ some .linkDatabase ∧ ending.stop ≠ some .linkAllowed
  /-- HAProxy reloads, and where its services fail it reloads once more, with the old lists. -/
  loads : env.first.loads = true → ending.stop ≠ some .reload ∧
    (env.first.ok = false → env.second.loads = true ∧ ending.stop ≠ some .relinkDatabase ∧
      ending.stop ≠ some .relinkAllowed ∧ ending.stop ≠ some .reloadAgain)
  /-- HAProxy does not reload, and `current` goes back. -/
  stays : env.first.loads = false → ending.stop ≠ some .switchBack

/-- A run that gives a running HAProxy's `current` other lists sees to it that they are loaded. -/
def Safe (w : World δ β) : Op β → Prop
  | .update args env ending =>
    ∀ product, w.plan sha format args env = .built product → w.current ≠ some product.id → w.loaded.isSome = true →
      Reaches ending → newLists w env product ≠ w.installed → Follows w args env ending product
  | _ => True

/-! ## Writes that keep the lists -/

variable {sha format} {w : World δ β} {args : Args} {env : Env} {ending : Ending} {product : Product δ}
  {e : Step × Write δ} {script : List (Step × Write δ)} {stop : Option Step}

theorem installed_eq {v : World δ β} (hc : v.current = w.current) (hr : v.releases = w.releases) :
    v.installed = w.installed := by
  unfold World.installed World.active World.lookup
  rw [hc, hr]

theorem synced_load (h : w.installed.isSome = true) : Synced w.load := by
  obtain ⟨lists, hl⟩ := Option.isSome_iff_exists.mp h
  intro other hother
  change w.installed.or w.loaded = some other at hother
  rw [hl, Option.some_or] at hother
  rw [← hother]
  exact hl

theorem Synced.load (h : Synced w) : Synced w.load := by
  cases hl : w.installed with
  | some lists => exact synced_load (by simp [hl])
  | none =>
    intro lists hlists
    change w.installed.or w.loaded = some lists at hlists
    rw [hl, Option.none_or] at hlists
    exact h lists hlists

theorem installed_publish {number : Nat} {entry : Entry δ} {lists : Lists} (h : w.installed = some lists) :
    (w.apply (.publish number entry)).installed = some lists := by
  simp only [World.installed, World.active, Option.bind_eq_some_iff] at h ⊢
  obtain ⟨r, ⟨id, hid, hr⟩, hlists⟩ := h
  exact ⟨r, ⟨id, hid, lookup_publish_of_some hr⟩, hlists⟩

theorem installed_remove {id : Id δ} (h : w.current ≠ some id) :
    (w.apply (.remove (.release id))).installed = w.installed := by
  unfold World.installed World.active
  change (w.current.bind _).bind _ = _
  cases hc : w.current with
  | none => rfl
  | some other =>
    have hne : id ≠ other := fun heq => h (by rw [hc, heq])
    simp only [Option.bind_some, lookup_remove_of_ne hne]

theorem installed_apply {write : Write δ} {lists : Lists} (h : w.installed = some lists) (hm : Mild w.current write) :
    (w.apply write).installed = some lists := by
  cases write with
  | setCurrent target => exact hm.elim
  | publish number entry => exact installed_publish h
  | remove v =>
    cases v with
    | release id => exact (installed_remove hm).trans h
    | build number => exact h
  | _ => exact h

theorem Synced.apply {write : Write δ} (h : Synced w) (hm : Mild w.current write) : Synced (w.apply write) := by
  cases write with
  | setCurrent target => exact hm.elim
  | load => exact h.load
  | remove v => cases v <;> exact fun lists hl => installed_apply (h lists hl) hm
  | _ => exact fun lists hl => installed_apply (h lists hl) hm

theorem installed_play {lists : Lists} (h : w.installed = some lists) (hm : ∀ e ∈ script, Mild w.current e.2) :
    (w.play script).installed = some lists := by
  suffices hboth : (w.play script).installed = some lists ∧ (w.play script).current = w.current from hboth.1
  refine Script.play_keeps (I := fun v : World δ β => v.installed = some lists ∧ v.current = w.current) ⟨h, rfl⟩ ?_
  rintro e he v ⟨hi, hc⟩
  have hmild := hm e he
  rw [← hc] at hmild
  exact ⟨installed_apply hi hmild, (current_apply hmild).trans hc⟩

/-- Mild writes, all of them or up to where the run stops. -/
theorem Synced.play (h : Synced w) (hm : ∀ e ∈ script, Mild w.current e.2) : Synced (w.play script) := by
  suffices hboth : Synced (w.play script) ∧ (w.play script).current = w.current from hboth.1
  refine Script.play_keeps (I := fun v : World δ β => Synced v ∧ v.current = w.current) ⟨h, rfl⟩ ?_
  rintro e he v ⟨hs, hc⟩
  have hmild := hm e he
  rw [← hc] at hmild
  exact ⟨hs.apply hmild, (current_apply hmild).trans hc⟩

theorem Synced.upTo (h : Synced w) (hm : ∀ e ∈ script, Mild w.current e.2) : Synced (w.play (Script.upTo stop script)) :=
  h.play fun e he => hm e (Script.mem_of_mem_upTo he)

/-! ## Runs that do not reload -/

theorem loaded_apply {write : Write δ} (h : write ≠ .load) : (w.apply write).loaded = w.loaded := by
  cases write with
  | load => exact absurd rfl h
  | remove v => cases v <;> rfl
  | _ => rfl

theorem ne_load_of_mem_prune (he : e ∈ w.prune) : e.2 ≠ .load := by
  obtain ⟨n, v, rfl, -⟩ := mem_prune he
  simp

omit [DecidableEq δ] in
theorem ne_load_of_mem_installLinks (he : e ∈ installLinks) : e.2 ≠ .load := by
  simp only [installLinks, List.mem_cons, List.not_mem_nil, or_false] at he
  obtain rfl | rfl := he <;> simp

omit [DecidableEq δ] in
theorem ne_load_of_mem_publishing (he : e ∈ w.publishing env product) : e.2 ≠ .load := by
  simp only [World.publishing, List.mem_cons, List.not_mem_nil, or_false] at he
  obtain rfl | rfl := he
  · simp
  · by_cases hf : product.fresh = true <;> simp [hf]

theorem ne_load_of_mem_finish (he : e ∈ w.finish sha) : e.2 ≠ .load := by
  unfold World.finish at he
  split at he
  · split at he
    · obtain rfl := List.mem_singleton.mp he
      simp
    · simp at he
  · simp at he

/-- A run that is not guarded does not reload. -/
theorem ne_load_of_mem_script (h : ∀ product, w.plan sha format args env = .built product →
    w.guarded args product = false) (he : e ∈ (w.script sha format args env).1) : e.2 ≠ .load := by
  obtain he | he := List.mem_append.mp he
  · cases hplan : w.plan sha format args env with
    | refused => simp [World.body, hplan] at he
    | unchanged =>
      simp only [World.body, hplan] at he
      exact ne_load_of_mem_installLinks he
    | failed =>
      simp only [World.body, hplan, List.mem_cons, List.not_mem_nil, or_false] at he
      obtain rfl | rfl := he <;> nofun
    | built product =>
      by_cases hne : w.current = some product.id
      · simp only [World.body, hplan, hne, if_true, List.mem_append] at he
        obtain he | he := he
        · exact ne_load_of_mem_publishing he
        · exact ne_load_of_mem_installLinks he
      · simp only [World.body, hplan, hne, if_false, h product hplan, Bool.false_eq_true, List.mem_append] at he
        obtain (he | he) | he := he
        · exact ne_load_of_mem_publishing he
        · obtain rfl | he := List.mem_cons.mp he
          · nofun
          · exact ne_load_of_mem_installLinks he
        · exact ne_load_of_mem_finish he
  · exact ne_load_of_mem_prune (mem_pruned he)

theorem loaded_play (h : ∀ e ∈ script, e.2 ≠ .load) : (w.play script).loaded = w.loaded := by
  refine Script.play_keeps (I := fun v : World δ β => v.loaded = w.loaded) rfl ?_
  intro e he v hv
  exact (loaded_apply (h e he)).trans hv

/-! ## A HAProxy that runs -/

/-- Just after the switch: `old` leads to the lists that HAProxy has, `current` to those of the product. -/
structure Switched (v : World δ β) (old : Option (Id δ)) (lists new : Lists) : Prop where
  loaded : v.loaded = some lists
  installed : v.installed = some new
  back : ∀ u : World δ β, u.releases = v.releases → u.current = old → u.installed = some lists

namespace Switched

variable {v : World δ β} {lists new : Lists}

theorem links (h : Switched v w.current lists new) : Switched (v.play installLinks) w.current lists new :=
  ⟨h.loaded, h.installed, h.back⟩

theorem synced (h : Switched v w.current lists lists) : Synced v := by
  intro other hother
  rw [h.loaded] at hother
  rw [← hother]
  exact h.installed

/-- Where the lists are the same it does not matter how far the run goes back. -/
theorem synced_back_of_same (h : Switched v w.current lists lists) : Synced (v.play (Script.upTo stop
    (installLinks ++ reloading .reload env.first ++ w.goBack ++ reloading .reloadAgain env.second))) := by
  suffices hall : ∀ u : World δ β, u.releases = v.releases ∧ u.loaded = some lists ∧
      (u.current = v.current ∨ u.current = w.current) → Synced u by
    apply hall
    refine Script.play_keeps (I := fun u : World δ β => u.releases = v.releases ∧ u.loaded = some lists ∧
      (u.current = v.current ∨ u.current = w.current)) ⟨rfl, h.loaded, .inl rfl⟩ ?_
    rintro e he u ⟨hr, hl, hc⟩
    have hload : u.apply .load = u := by
      have hi : u.installed = some lists := by
        obtain hc | hc := hc
        · exact (installed_eq hc hr).trans h.installed
        · exact h.back u hr hc
      change { u with loaded := u.installed.or u.loaded } = u
      rw [hi, Option.some_or, ← hl]
    obtain ⟨database, allowed, hback⟩ := goBack_eq (w := w)
    have he := Script.mem_of_mem_upTo he
    simp only [hback, installLinks, reloading, List.mem_append, List.mem_cons, List.not_mem_nil, or_false] at he
    obtain (((rfl | rfl) | he) | rfl | rfl | rfl) | he := he
    · exact ⟨hr, hl, hc⟩
    · exact ⟨hr, hl, hc⟩
    · split at he
      · obtain rfl := List.mem_singleton.mp he
        rw [hload]
        exact ⟨hr, hl, hc⟩
      · simp at he
    · exact ⟨hr, hl, .inr rfl⟩
    · exact ⟨hr, hl, hc⟩
    · exact ⟨hr, hl, hc⟩
    · split at he
      · obtain rfl := List.mem_singleton.mp he
        rw [hload]
        exact ⟨hr, hl, hc⟩
      · simp at he
  rintro u ⟨hr, hl, hc⟩ other hother
  rw [hl] at hother
  rw [← hother]
  obtain hc | hc := hc
  · exact (installed_eq hc hr).trans h.installed
  · exact h.back u hr hc

/-- HAProxy has reloaded and its services fail: it reloads with the old lists. -/
theorem synced_back_of_loads (h : Switched v w.current lists new) (hfirst : env.first.loads = true)
    (hsecond : env.second.loads = true) (hreload : stop ≠ some .reload)
    (hrelink : stop ≠ some .relinkDatabase ∧ stop ≠ some .relinkAllowed ∧ stop ≠ some .reloadAgain) :
    Synced (v.play (Script.upTo stop
      (reloading .reload env.first ++ w.goBack ++ reloading .reloadAgain env.second))) := by
  obtain ⟨database, allowed, hback⟩ := goBack_eq (w := w)
  simp only [hback, reloading, hfirst, hsecond, if_true, List.cons_append, List.nil_append]
  rw [Script.upTo_cons_of_ne hreload]
  by_cases hswitch : stop = some .switchBack
  · rw [Script.upTo_cons_self hswitch]
    exact synced_load (by simp [h.installed])
  · rw [Script.upTo_cons_of_ne hswitch, Script.upTo_cons_of_ne hrelink.1, Script.upTo_cons_of_ne hrelink.2.1,
      Script.upTo_cons_of_ne hrelink.2.2]
    exact synced_load (Option.isSome_iff_exists.mpr ⟨lists, h.back _ rfl rfl⟩)

/-- HAProxy has not reloaded, and `current` goes back. -/
theorem synced_back_of_stays (h : Switched v w.current lists new) (hfirst : env.first.loads = false)
    (hswitch : stop ≠ some .switchBack) : Synced (v.play (Script.upTo stop
      (reloading .reload env.first ++ w.goBack ++ reloading .reloadAgain env.second))) := by
  obtain ⟨database, allowed, hback⟩ := goBack_eq (w := w)
  simp only [hback, reloading, hfirst, Bool.false_eq_true, if_false, List.cons_append, List.nil_append]
  rw [Script.upTo_cons_of_ne hswitch]
  have hsynced : Synced (v.apply (.setCurrent w.current)) := by
    intro other hother
    have : v.loaded = some other := hother
    rw [h.loaded] at this
    rw [← this]
    exact h.back _ rfl rfl
  refine hsynced.upTo ?_
  intro e he
  simp only [List.mem_cons] at he
  obtain rfl | rfl | he := he
  · trivial
  · trivial
  · exact mild_reloading he

end Switched

/-- What is published under the product's name has a list. -/
theorem newLists_isSome (h : w.plan sha format args env = .built product) : (newLists w env product).isSome = true := by
  obtain ⟨countries, enabled, -, -, hproduce⟩ := plan_built h
  obtain ⟨hallowed, hfresh, hold⟩ := produce_placed hproduce
  have hlists : ∀ r : Release δ, r.allowed.isSome = true → r.lists.isSome = true := fun r hr => by
    simpa [Release.lists] using hr
  unfold newLists
  by_cases hf : product.fresh = true
  · rw [lookup_publishing_self hf (hfresh hf)]
    exact hlists _ hallowed
  · obtain ⟨r, hr, hallowed⟩ := hold (Bool.eq_false_iff.mpr hf)
    rw [lookup_publishing_of_some hr]
    exact hlists r hallowed

/-- The run as far as the switch, and what is left of it. -/
theorem synced_switched (hs : Synced w) (hplan : w.plan sha format args env = .built product)
    (hne : w.current ≠ some product.id) {lists : Lists} (hl : w.loaded = some lists) (hreach : Reaches ending)
    (hfollows : newLists w env product ≠ w.installed → Follows w args env ending product) :
    Synced (w.play (Script.upTo ending.stop (w.body sha format args env).1)) := by
  obtain ⟨new, hnew⟩ := Option.isSome_iff_exists.mp (newLists_isSome hplan)
  set w₁ := w.play (w.publishing env product) with hw₁
  have hs₁ : Synced w₁ := hs.play fun e he => mild_publishing he
  have hl₁ : w₁.loaded = some lists := (loaded_play fun e he => ne_load_of_mem_publishing he).trans hl
  have hc₁ : w₁.current = w.current := current_play fun e he => mild_publishing he
  set w₂ := w₁.apply (.setCurrent (some product.id)) with hw₂
  have hswitched : Switched w₂ w.current lists new :=
    ⟨hl₁, hnew, fun u hr hc => (installed_eq (hc.trans hc₁.symm) hr).trans (hs₁ lists hl₁)⟩
  obtain ⟨rest, hrest, hbody⟩ := body_switching hplan hne
  have hplay : w.play (Script.upTo ending.stop (w.body sha format args env).1) =
      w₂.play (Script.upTo ending.stop (installLinks ++ rest)) := by
    have hpublish : ∀ e ∈ w.publishing env product, ending.stop ≠ some e.1 := by
      intro e he
      simp only [World.publishing, List.mem_cons, List.not_mem_nil, or_false] at he
      obtain rfl | rfl := he
      · exact hreach.1
      · exact hreach.2.1
    rw [hbody, Script.upTo_append hpublish, Script.upTo_cons_of_ne hreach.2.2, World.play, Script.play_append]
    rfl
  rw [hplay]
  generalize (w.body sha format args env).2 = returns at hrest
  by_cases hsame : newLists w env product = w.installed
  · have hsame : new = lists := by
      rw [hnew, hs lists hl] at hsame
      exact Option.some.inj hsame
    subst hsame
    cases hrest with
    | back => simpa only [List.append_assoc] using hswitched.synced_back_of_same
    | kept =>
      refine hswitched.synced.upTo fun e he => ?_
      simp only [List.mem_append] at he
      obtain he | he | he := he
      · exact mild_installLinks he
      · exact mild_reloading he
      · exact mild_finish he
    | quiet =>
      refine hswitched.synced.upTo fun e he => ?_
      obtain he | he := List.mem_append.mp he
      · exact mild_installLinks he
      · exact mild_finish he
  · obtain ⟨hguarded, hlinks, hloads, hstays⟩ := hfollows hsame
    rw [upTo_installLinks hlinks, World.play, Script.play_append]
    cases hrest with
    | back _ hfailed =>
      cases hfirst : env.first.loads with
      | true =>
        obtain ⟨hreload, hagain⟩ := hloads hfirst
        obtain ⟨hsecond, hrelink⟩ := hagain hfailed
        exact hswitched.links.synced_back_of_loads hfirst hsecond hreload hrelink
      | false => exact hswitched.links.synced_back_of_stays hfirst (hstays hfirst)
    | kept _ hok =>
      have hfirst : env.first.loads = true := by
        simp only [Guard.ok, Bool.and_eq_true] at hok
        simp [Guard.loads, hok.1.1, hok.1.2]
      simp only [reloading, hfirst, if_true, List.cons_append, List.nil_append]
      rw [Script.upTo_cons_of_ne (hloads hfirst).1]
      have hloaded : Synced ((w₂.play installLinks).apply .load) :=
        synced_load (by rw [hswitched.links.installed]; rfl)
      exact hloaded.upTo fun e he => mild_finish he
    | quiet hquiet =>
      rw [hguarded] at hquiet
      cases hquiet

/-- A run that stops before the switch. -/
theorem synced_unswitched (hs : Synced w) (hplan : w.plan sha format args env = .built product)
    (hne : w.current ≠ some product.id) (hreach : ¬ Reaches ending) :
    Synced (w.play (Script.upTo ending.stop (w.body sha format args env).1)) := by
  obtain ⟨rest, -, hbody⟩ := body_switching hplan hne
  refine hs.play fun e he => ?_
  suffices hmem : e ∈ w.publishing env product from mild_publishing hmem
  rw [hbody, World.publishing, List.cons_append, List.cons_append, List.nil_append] at he
  by_cases hopen : ending.stop = some .openBuild
  · rw [Script.upTo_cons_self hopen] at he
    cases he
  rw [Script.upTo_cons_of_ne hopen] at he
  by_cases hpublish : ending.stop = some .publish
  · rw [Script.upTo_cons_self hpublish, List.mem_singleton] at he
    rw [he]
    exact List.mem_cons_self
  rw [Script.upTo_cons_of_ne hpublish] at he
  by_cases hswitch : ending.stop = some .switch
  · rwa [Script.upTo_cons_self hswitch] at he
  · exact absurd ⟨hopen, hpublish, hswitch⟩ hreach

theorem synced_body (hs : Synced w) (h : Safe sha format w (.update args env ending)) {lists : Lists}
    (hl : w.loaded = some lists) : Synced (w.play (Script.upTo ending.stop (w.body sha format args env).1)) := by
  cases hplan : w.plan sha format args env with
  | refused =>
    unfold World.body
    rw [hplan]
    exact hs
  | unchanged =>
    unfold World.body
    rw [hplan]
    exact hs.upTo fun e he => mild_installLinks he
  | failed =>
    unfold World.body
    rw [hplan]
    refine hs.upTo fun e he => ?_
    simp only [List.mem_cons, List.not_mem_nil, or_false] at he
    obtain rfl | rfl := he <;> trivial
  | built product =>
    by_cases hcurrent : w.current = some product.id
    · unfold World.body
      rw [hplan]
      simp only [hcurrent, if_true]
      refine hs.upTo fun e he => ?_
      obtain he | he := List.mem_append.mp he
      · exact mild_publishing he
      · exact mild_installLinks he
    · by_cases hreach : Reaches ending
      · exact synced_switched hs hplan hcurrent hl hreach (h product hplan hcurrent (by simp [hl]) hreach)
      · exact synced_unswitched hs hplan hcurrent hreach

theorem synced_update (hs : Synced w) (h : Safe sha format w (.update args env ending)) :
    Synced (w.update sha format args env ending) := by
  suffices hplayed : Synced (w.play (Script.upTo ending.stop (w.script sha format args env).1)) by
    cases ending <;> exact hplayed
  cases hl : w.loaded with
  | none =>
    have hguard : ∀ product, w.plan sha format args env = .built product → w.guarded args product = false :=
      fun product _ => by simp [World.guarded, hl]
    have hnone : (w.play (Script.upTo ending.stop (w.script sha format args env).1)).loaded = none :=
      (loaded_play fun e he => ne_load_of_mem_script hguard (Script.mem_of_mem_upTo he)).trans hl
    intro lists hlists
    rw [hnone] at hlists
    cases hlists
  | some lists =>
    have hbody := synced_body hs h hl
    unfold World.script
    obtain hstop | ⟨hall, hstop⟩ := Script.upTo_append_cases (w.body sha format args env).1
      (if (w.body sha format args env).2 = true then (w.play (w.body sha format args env).1).prune else []) ending.stop
    · rw [hstop]
      exact hbody
    · rw [hall] at hbody
      rw [hstop, World.play, Script.play_append]
      exact hbody.upTo fun e he => mild_prune (mem_pruned he)

theorem synced_step {op : Op β} (hs : Synced w) (h : Safe sha format w op) : Synced (step sha format w op) := by
  cases op with
  | update args env ending => exact synced_update hs h
  | select content => exact hs
  | start =>
    change Synced (if w.loaded.isNone = true then _ else _)
    split
    · exact fun lists hl => hl
    · exact hs
  | stop => nofun
  | reload =>
    change Synced (if w.loaded.isSome = true then _ else _)
    split
    · exact hs.load
    · exact hs

/-- In a run whose updates all see to what they change, every update that returns leaves HAProxy with
the lists that are installed. -/
theorem updates_filter_by_installed {ops : List (Op β)} (h : Machine.Along (step sha format) (Safe sha format) w ops)
    (hs : Synced w) : Machine.Along (step sha format) (Filters sha format) w ops := by
  refine h.imp_of_invariant hs (fun _ _ => synced_step) ?_
  intro v op hv hsafe
  cases op with
  | update args env ending => exact fun _ _ _ => synced_update hv hsafe
  | _ => trivial

/-! ## Runs that leave HAProxy with the old lists -/

theorem newLists_fresh (h : w.plan sha format args env = .built product) (hf : product.fresh = true) :
    newLists w env product = product.release.lists := by
  obtain ⟨countries, enabled, -, -, hproduce⟩ := plan_built h
  unfold newLists
  rw [lookup_publishing_self hf ((produce_placed hproduce).2.1 hf), Option.bind_some]

/-- A switch that is not guarded returns, and HAProxy keeps what it had. -/
theorem unguarded_update (hplan : w.plan sha format args env = .built product) (hne : w.current ≠ some product.id)
    (hguard : w.guarded args product = false) :
    w.returns sha format args env .complete = true ∧
      (w.update sha format args env .complete).loaded = w.loaded ∧
      (w.update sha format args env .complete).installed = newLists w env product := by
  have hguards : ∀ other, w.plan sha format args env = .built other → w.guarded args other = false := by
    intro other hother
    rw [hplan] at hother
    cases hother
    exact hguard
  obtain ⟨rest, hrest, hbody⟩ := body_switching hplan hne
  generalize hreturns : (w.body sha format args env).2 = returns at hrest
  cases hrest with
  | back hguarded => simp [hguard] at hguarded
  | kept hguarded => simp [hguard] at hguarded
  | quiet =>
    refine ⟨?_, ?_, ?_⟩
    · simp [World.returns, World.script, hreturns, Ending.stop]
    · change (w.play (Script.upTo none _)).loaded = _
      rw [Script.upTo_none]
      exact loaded_play fun e he => ne_load_of_mem_script hguards he
    · obtain ⟨new, hnew⟩ := Option.isSome_iff_exists.mp (newLists_isSome hplan)
      have hplayed : (w.play (w.body sha format args env).1).installed = some new := by
        rw [hbody, World.play, Script.play_append]
        refine installed_play (w := World.apply _ (.setCurrent (some product.id))) hnew ?_
        intro e he
        obtain he | he := List.mem_append.mp he
        · exact mild_installLinks he
        · exact mild_finish he
      change (w.play (Script.upTo none _)).installed = _
      rw [Script.upTo_none, World.script, World.play, Script.play_append, hnew]
      exact installed_play hplayed fun e he => mild_prune (mem_pruned he)

theorem installed_sampleWorld {month : Month} {records : List Record} :
    (sampleWorld month records).installed = some (listsOf records [['D', 'E'], ['F', 'R']]) := by
  simp [World.installed, active_sampleWorld, sampleRelease, Release.lists]

theorem synced_sampleWorld {month : Month} {records : List Record} : Synced (sampleWorld month records) := by
  intro lists hl
  rw [installed_sampleWorld]
  exact hl

theorem current_sampleWorld_ne {before month : Month} {old records : List Record} (h : before ≠ month) :
    (sampleWorld before old).current ≠ some (sampleProduct month old records).id := by
  simp [sampleWorld, sampleProduct, sampleName, h]

/-- 1.0.0.0/8 and 4.0.0.0/8 change places, so `allowed.geo` stays the same and there is no reload. -/
theorem moved_networks_stay_loaded :
    let before := [⟨.of .v4 16777216 8, some ['D', 'E']⟩, ⟨.of .v4 67108864 8, some ['F', 'R']⟩]
    let after := [⟨.of .v4 16777216 8, some ['F', 'R']⟩, ⟨.of .v4 67108864 8, some ['D', 'E']⟩]
    Synced (sampleWorld ⟨2026, 1⟩ before) ∧
    ¬ Filters Digest.exact some (sampleWorld ⟨2026, 1⟩ before)
      (.update ⟨false, false, none⟩ (sampleEnv ⟨2026, 2⟩ after .passing .passing) .complete) := by
  intro before after
  refine ⟨synced_sampleWorld, ?_⟩
  intro h
  have hmonth : (⟨2026, 1⟩ : Month) ≠ ⟨2026, 2⟩ := by decide
  have hcomplete : Complete after := by
    unfold Complete
    decide
  have hplan : (sampleWorld ⟨2026, 1⟩ before).plan Digest.exact some ⟨false, false, none⟩
      (sampleEnv ⟨2026, 2⟩ after .passing .passing) = .built (sampleProduct ⟨2026, 2⟩ before after) :=
    plan_sampleWorld hmonth hcomplete
  have hguard : (sampleWorld ⟨2026, 1⟩ before).guarded ⟨false, false, none⟩ (sampleProduct ⟨2026, 2⟩ before after) =
      false := by
    have hsame : (listsOf before [['D', 'E'], ['F', 'R']]).allowed = (listsOf after [['D', 'E'], ['F', 'R']]).allowed := by
      decide +kernel
    simp [World.guarded, sampleProduct, hsame]
  obtain ⟨hreturns, hloaded, hinstalled⟩ := unguarded_update hplan (current_sampleWorld_ne hmonth) hguard
  have hsynced := h hreturns (by simp [chosen_sampleWorld]) rfl _ hloaded
  rw [hinstalled, newLists_fresh hplan rfl] at hsynced
  exact absurd (Option.some.inj hsynced) (by decide +kernel)

/-- 4.0.0.0/8 gives way to 6.0.0.0/8: `allowed.geo` changes and HAProxy reloads. -/
theorem updates_filter_by_installed_sample :
    let before := [⟨.of .v4 16777216 8, some ['D', 'E']⟩, ⟨.of .v4 67108864 8, some ['F', 'R']⟩]
    let after := [⟨.of .v4 16777216 8, some ['D', 'E']⟩, ⟨.of .v4 100663296 8, some ['F', 'R']⟩]
    Machine.Along (step Digest.exact some) (Filters Digest.exact some) (sampleWorld ⟨2026, 1⟩ before)
      [.update ⟨false, false, none⟩ (sampleEnv ⟨2026, 2⟩ after .passing .passing) .complete, .reload] := by
  intro before after
  refine updates_filter_by_installed ⟨?_, trivial, trivial⟩ synced_sampleWorld
  intro product hplan hne hloaded hreach hnew
  have hmonth : (⟨2026, 1⟩ : Month) ≠ ⟨2026, 2⟩ := by decide
  have hcomplete : Complete after := by
    unfold Complete
    decide
  rw [plan_sampleWorld hmonth hcomplete] at hplan
  cases hplan
  have hchanged : (listsOf before [['D', 'E'], ['F', 'R']]).allowed ≠ (listsOf after [['D', 'E'], ['F', 'R']]).allowed := by
    decide +kernel
  refine ⟨?_, ⟨nofun, nofun⟩, fun _ => ⟨nofun, nofun⟩, fun _ => nofun⟩
  simp [World.guarded, sampleProduct, sampleWorld, hchanged]

end EasyHaProxy.Geoip.Loaded
