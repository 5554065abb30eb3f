import EasyHaProxy.Geoip.Update

/-! Only the switch and the way back move `current`; what is pruned is neither the current nor the previous
release. So what a run does to a host is read off the few writes after the switch. -/
namespace EasyHaProxy.Geoip

variable {δ β : Type} [DecidableEq δ] {sha : Sha δ} {format : Format β} {w : World δ β} {args : Args} {env : Env}
  {product : Product δ} {e : Step × Write δ} {script : List (Step × Write δ)} {stop : Option Step}

/-- The write does not move `current` and does not take its release away. -/
def Mild (current : Option (Id δ)) : Write δ → Prop
  | .setCurrent _ => False
  | .remove (.release id) => current ≠ some id
  | _ => True

section

omit [DecidableEq δ]

variable {current : Option (Id δ)}

theorem mild_installLinks (he : e ∈ installLinks) : Mild current e.2 := by
  simp only [installLinks, List.mem_cons, List.not_mem_nil, or_false] at he
  obtain rfl | rfl := he <;> trivial

theorem mild_reloading {step : Step} {guard : Guard} (he : e ∈ reloading step guard) : Mild current e.2 := by
  unfold reloading at he
  split at he
  · obtain rfl := List.mem_singleton.mp he
    trivial
  · simp at he

end

theorem mild_prune (he : e ∈ w.prune) : Mild w.current e.2 := by
  obtain ⟨n, v, rfl, hv⟩ := mem_prune he
  cases v with
  | release id => exact (hv id rfl).1
  | build number => trivial

omit [DecidableEq δ] in
theorem mild_publishing {current : Option (Id δ)} (he : e ∈ w.publishing env product) : Mild current e.2 := by
  simp only [World.publishing, List.mem_cons, List.not_mem_nil, or_false] at he
  obtain rfl | rfl := he
  · trivial
  · by_cases hf : product.fresh = true <;> simp [hf, Mild]

theorem mild_finish {current : Option (Id δ)} (he : e ∈ w.finish sha) : Mild current e.2 := by
  unfold World.finish at he
  split at he
  · split at he
    · obtain rfl := List.mem_singleton.mp he
      trivial
    · simp at he
  · simp at he

theorem current_apply {write : Write δ} {current : Option (Id δ)} (h : Mild current write) :
    (w.apply write).current = w.current := by
  cases write with
  | setCurrent target => exact h.elim
  | remove v => cases v <;> rfl
  | _ => rfl

theorem current_play (hm : ∀ e ∈ script, Mild w.current e.2) : (w.play script).current = w.current := by
  refine Script.play_keeps (I := fun v : World δ β => v.current = w.current) rfl ?_
  intro e he v hc
  exact (current_apply (hm e he)).trans hc

omit [DecidableEq δ] in
theorem goBack_eq : ∃ database allowed, w.goBack = [(.switchBack, .setCurrent w.current),
    (.relinkDatabase, .setDatabase database), (.relinkAllowed, .setAllowed allowed)] := by
  unfold World.goBack
  cases hc : w.current with
  | some old => exact ⟨_, _, rfl⟩
  | none => exact ⟨_, _, rfl⟩

omit [DecidableEq δ] in
theorem upTo_installLinks (h : stop ≠ some .linkDatabase ∧ stop ≠ some .linkAllowed) :
    Script.upTo stop (installLinks ++ script) = installLinks ++ Script.upTo stop script := by
  apply Script.upTo_append
  intro e he
  simp only [installLinks, List.mem_cons, List.not_mem_nil, or_false] at he
  obtain rfl | rfl := he
  · exact h.1
  · exact h.2

/-- What is left of a run after the switch and the links. -/
inductive Rest (sha : Sha δ) (w : World δ β) (args : Args) (env : Env) (product : Product δ) :
    List (Step × Write δ) → Bool → Prop
  | back (guarded : w.guarded args product = true) (failed : env.first.ok = false) :
    Rest sha w args env product (reloading .reload env.first ++ w.goBack ++ reloading .reloadAgain env.second) false
  | kept (guarded : w.guarded args product = true) (ok : env.first.ok = true) :
    Rest sha w args env product (reloading .reload env.first ++ w.finish sha) true
  | quiet (quiet : w.guarded args product = false) : Rest sha w args env product (w.finish sha) true

theorem body_switching (hplan : w.plan sha format args env = .built product) (hne : w.current ≠ some product.id) :
    ∃ rest, Rest sha w args env product rest (w.body sha format args env).2 ∧ (w.body sha format args env).1 =
      w.publishing env product ++ (.switch, .setCurrent (some product.id)) :: (installLinks ++ rest) := by
  unfold World.body
  rw [hplan]
  simp only [hne, if_false]
  by_cases hguard : w.guarded args product = true
  · by_cases hok : env.first.ok = true
    · simp only [hguard, hok, if_true]
      exact ⟨_, .kept hguard hok, by simp [switching]⟩
    · simp only [hguard, hok, if_true]
      exact ⟨_, .back hguard (Bool.eq_false_iff.mpr hok), by simp [switching]⟩
  · simp only [hguard]
    exact ⟨_, .quiet (Bool.eq_false_iff.mpr hguard), by simp [switching]⟩

theorem mem_pruned {body : List (Step × Write δ) × Bool}
    (he : e ∈ if body.2 = true then (w.play body.1).prune else []) : e ∈ (w.play body.1).prune := by
  split at he
  · exact he
  · cases he

/-! ## A host to look at -/

/-- A hash under which different files have different digests. -/
inductive Digest
  | database (db : Database)
  | list (list : List Network)
  | config (countries : List Country) (enabled : Bool) (allowed : Digest)
  deriving DecidableEq

def Digest.exact : Sha Digest := ⟨.database, .list, .config, id⟩

/-- Germany and France, with filtering on, from a database of this month. -/
def sampleRelease (month : Month) (records : List Record) : Release Digest :=
  let countries := [['D', 'E'], ['F', 'R']]
  let lists := listsOf records countries
  { database := some (padded records)
    allowed := some lists.allowed
    cidr := lists.cidr
    state := some ⟨releaseFormatVersion, month, countries, true, .database (padded records), .list lists.allowed⟩ }

def sampleName (month : Month) (records : List Record) : Name Digest :=
  ⟨month, .database (padded records),
    .config [['D', 'E'], ['F', 'R']] true (.list (listsOf records [['D', 'E'], ['F', 'R']]).allowed)⟩

/-- A host with that release. -/
def sampleWorld (month : Month) (records : List Record) : World Digest (List (List Char) × Bool) where
  releases := [⟨.release (sampleName month records), 0, sampleRelease month records⟩]
  builds := []
  current := some (.release (sampleName month records))
  previous := none
  compatDatabase := .link
  compatAllowed := .link
  selection := .file ([['D', 'E'], ['F', 'R']], true)
  loaded := some (listsOf records [['D', 'E'], ['F', 'R']])

def Guard.passing : Guard := ⟨true, true, false, true⟩

/-- A month later, with that month's database to download. -/
def sampleEnv (month : Month) (records : List Record) (first second : Guard) : Env where
  deferred := false
  now := month
  stamp := 0
  mtime := 1
  download := fun _ => some (padded records)
  first := first
  second := second

def sampleProduct (month : Month) (old records : List Record) : Product Digest where
  release := sampleRelease month records
  id := .release (sampleName month records)
  fresh := true
  changed := (listsOf old [['D', 'E'], ['F', 'R']]).allowed ≠ (listsOf records [['D', 'E'], ['F', 'R']]).allowed
  enabled := true

def Complete (records : List Record) : Prop :=
  records.any (fun r => r.network.version = .v4) = true ∧
    ∀ code ∈ [['D', 'E'], ['F', 'R']], code ≠ [] ∧ records.any (fun r => r.country = code) = true

theorem active_sampleWorld {month : Month} {records : List Record} :
    (sampleWorld month records).active = some (sampleRelease month records) := by
  simp [World.active, World.lookup, sampleWorld]

theorem chosen_sampleWorld {month : Month} {records : List Record} {skip : Bool} :
    (sampleWorld month records).chosen some ⟨false, skip, none⟩ = some ([['D', 'E'], ['F', 'R']], true) := by
  have hcodes : normalizeCountries [['D', 'E'], ['F', 'R']] = some [['D', 'E'], ['F', 'R']] := by decide
  simp [World.chosen, sampleWorld, hcodes]

theorem plan_sampleWorld {before month : Month} {old records : List Record} {skip : Bool} {first second : Guard}
    (hmonth : before ≠ month) (hrecords : Complete records) :
    (sampleWorld before old).plan Digest.exact some ⟨false, skip, none⟩ (sampleEnv month records first second) =
      .built (sampleProduct month old records) := by
  have hstate : (sampleWorld before old).state = (sampleRelease before old).state := by
    simp [World.state, active_sampleWorld]
  have hmatches : (sampleWorld before old).stateMatches Digest.exact ⟨false, skip, none⟩
      (sampleEnv month records first second) [['D', 'E'], ['F', 'R']] true = false := by
    simp [World.stateMatches, hstate, sampleRelease, sampleEnv, hmonth]
  have hsource : (sampleWorld before old).source Digest.exact ⟨false, skip, none⟩
      (sampleEnv month records first second) = some (month, padded records) := by
    simp [World.source, hstate, sampleRelease, sampleEnv, hmonth, active_sampleWorld, Env.downloadDatabase,
      validateDatabase_padded, Option.filter]
  have hbuild : (sampleWorld before old).build Digest.exact month (padded records) [['D', 'E'], ['F', 'R']] true =
      some (sampleRelease month records) := by
    simp [World.build, deriveAcl_padded hrecords.1 hrecords.2, sampleRelease, Digest.exact]
  have hplace : (sampleWorld before old).place Digest.exact (sampleName month records)
      (.database (padded records)) (.list (listsOf records [['D', 'E'], ['F', 'R']]).allowed) 0 =
      (.release (sampleName month records), true) := by
    simp [World.place, World.lookup, sampleWorld, sampleName, hmonth]
  have hallowed : (sampleWorld before old).previousAllowed = some (listsOf old [['D', 'E'], ['F', 'R']]).allowed := by
    simp [World.previousAllowed, active_sampleWorld, sampleRelease]
  have hproduce : (sampleWorld before old).produce Digest.exact ⟨false, skip, none⟩
      (sampleEnv month records first second) [['D', 'E'], ['F', 'R']] true = some (sampleProduct month old records) := by
    unfold World.produce
    rw [hsource, Option.bind_some, hbuild, Option.bind_some, hallowed]
    change some (Product.mk _ (World.place _ _ _ _ _ _).1 (World.place _ _ _ _ _ _).2 _ _) = _
    erw [hplace]
    simp [sampleProduct, sampleRelease]
  unfold World.plan
  rw [chosen_sampleWorld]
  simp only [hmatches, hproduce]
  rfl

end EasyHaProxy.Geoip
