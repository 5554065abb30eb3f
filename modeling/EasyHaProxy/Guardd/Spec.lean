import EasyHaProxy.Guardd.Engine

/-! One rule for each primitive and each method of the enforcer: the write it makes, what it returns, and
which answers make it raise. -/
namespace EasyHaProxy.Guardd

/-- Writes made as their labels say, where a guard allows them. -/
def By (guard : World → Write → Prop) : World → Write → World → Prop :=
  fun w l w' => w' = l.apply w ∧ guard w l

/-- A set of scripts that every command leaves within itself. -/
structure Closed (I : Script → Prop) : Prop where
  list : ∀ i, I i → I i.nextList.2
  show_ : ∀ i, I i → I i.nextShow.2
  set : ∀ i, I i → I i.nextSet.2
  clear : ∀ i, I i → I i.nextClear.2
  info : ∀ i, I i → I i.nextInfo.2
  sql : ∀ i, I i → I i.nextSql.2

/-- Every command of a kind is answered as asked. -/
def Done (next : Script → Answer × Script) (I : Script → Prop) : Prop := ∀ i, I i → (next i).1 = .done

def ListsDone (I : Script → Prop) : Prop := Done Script.nextList I
def ShowsDone (I : Script → Prop) : Prop := Done Script.nextShow I
def SetsDone (I : Script → Prop) : Prop := Done Script.nextSet I
def ClearsDone (I : Script → Prop) : Prop := Done Script.nextClear I
def InfosDone (I : Script → Prop) : Prop := Done Script.nextInfo I
def SqlDone (I : Script → Prop) : Prop := ∀ i, I i → i.nextSql.1 = true

/-- Every command and every statement is answered as asked, the listing of the tables apart. -/
structure Answered (I : Script → Prop) : Prop where
  shows : ShowsDone I
  sets : SetsDone I
  clears : ClearsDone I
  infos : InfosDone I
  sql : SqlDone I

/-- Every command and every statement is answered as asked. -/
structure AllDone (I : Script → Prop) : Prop extends Answered I where
  lists : ListsDone I

theorem closed_any : Closed (fun _ => True) :=
  ⟨fun _ _ => trivial, fun _ _ => trivial, fun _ _ => trivial, fun _ _ => trivial,
    fun _ _ => trivial, fun _ _ => trivial⟩

/-! ## Scripts -/

def AllOf (answers : List Answer) : Prop := ∀ a ∈ answers, a = .done

theorem AllOf.head {answers : List Answer} (h : AllOf answers) : answers.headD .done = .done := by
  cases answers with
  | nil => rfl
  | cons a as => exact h a List.mem_cons_self

theorem AllOf.tail {answers : List Answer} (h : AllOf answers) : AllOf answers.tail :=
  fun a ha => h a (List.mem_of_mem_tail ha)

namespace Script

def Listed (s : Script) : Prop := AllOf s.lists

/-- Table reads and removals are answered. -/
def Reads (s : Script) : Prop := AllOf s.shows ∧ AllOf s.clears

/-- Every statement commits. -/
def Commits (s : Script) : Prop := ∀ b ∈ s.sql, b = true

/-- Everything is answered as asked. -/
structure Succeeds (s : Script) : Prop where
  lists : AllOf s.lists
  shows : AllOf s.shows
  sets : AllOf s.sets
  clears : AllOf s.clears
  infos : AllOf s.infos
  sql : s.Commits

theorem Commits.head {s : Script} (h : s.Commits) : s.nextSql.1 = true := by
  unfold nextSql
  cases hs : s.sql with
  | nil => rfl
  | cons b bs => exact h b (hs ▸ List.mem_cons_self)

theorem Commits.tail {s : Script} (h : s.Commits) : s.nextSql.2.Commits :=
  fun b hb => h b (List.mem_of_mem_tail hb)

end Script

theorem closed_listed : Closed Script.Listed :=
  ⟨fun _ h => AllOf.tail h, fun _ h => h, fun _ h => h, fun _ h => h, fun _ h => h, fun _ h => h⟩

theorem listsDone_listed : ListsDone Script.Listed := fun _ h => AllOf.head h

theorem closed_commits : Closed Script.Commits :=
  ⟨fun _ h => h, fun _ h => h, fun _ h => h, fun _ h => h, fun _ h => h, fun _ h => h.tail⟩

theorem sqlDone_commits : SqlDone Script.Commits := fun _ h => h.head

theorem closed_reads : Closed Script.Reads :=
  ⟨fun _ h => h, fun _ h => ⟨h.1.tail, h.2⟩, fun _ h => h, fun _ h => ⟨h.1, h.2.tail⟩, fun _ h => h,
    fun _ h => h⟩

theorem closed_succeeds : Closed Script.Succeeds :=
  ⟨fun _ h => { h with lists := h.lists.tail }, fun _ h => { h with shows := h.shows.tail },
    fun _ h => { h with sets := h.sets.tail }, fun _ h => { h with clears := h.clears.tail },
    fun _ h => { h with infos := h.infos.tail }, fun _ h => { h with sql := h.sql.tail }⟩

theorem allDone_succeeds : AllDone Script.Succeeds where
  lists := fun _ h => h.lists.head
  shows := fun _ h => h.shows.head
  sets := fun _ h => h.sets.head
  clears := fun _ h => h.clears.head
  infos := fun _ h => h.infos.head
  sql := fun _ h => h.sql.head

namespace World

variable {w : World} {ip : Ip} {code : Int}

/-- An entry with this reason code, flagged or not. -/
def carries (w : World) (ip : Ip) (code : Int) : Prop :=
  ∃ e, w.table.get? ip = some e ∧ e.gpt0 = code

/-- What `active_bans` finds. -/
def active (w : World) : Dict Ip Int :=
  (w.rows.filter (fun _ row => row.flagged)).mapValues (fun _ row => row.gpt0)

theorem get?_rows : w.rows.get? ip =
    (w.table.get? ip).map (fun e => { gpc0 := e.gpc0, gpt0 := e.gpt0, exp := e.expires - w.clock }) :=
  Dict.get?_mapValues _

theorem holds_iff : w.holds ip code ↔ ∃ e, w.table.get? ip = some e ∧ e.flagged ∧ e.gpt0 = code := by
  unfold holds
  cases w.table.get? ip <;> simp

theorem flagged_iff : w.flagged ip ↔ ∃ e, w.table.get? ip = some e ∧ e.flagged := by
  unfold flagged
  cases w.table.get? ip <;> simp

theorem carries_of_holds (h : w.holds ip code) : w.carries ip code := by
  obtain ⟨e, he, -, hc⟩ := holds_iff.mp h
  exact ⟨e, he, hc⟩

theorem flagged_of_holds (h : w.holds ip code) : w.flagged ip := by
  obtain ⟨e, he, hf, -⟩ := holds_iff.mp h
  exact flagged_iff.mpr ⟨e, he, hf⟩

theorem get?_active : w.active.get? ip = some code ↔ w.holds ip code := by
  rw [active, Dict.get?_mapValues, Dict.get?_filter, get?_rows, holds_iff]
  cases w.table.get? ip with
  | none => simp
  | some e =>
    by_cases hf : 0 < e.gpc0 <;> simp [Option.filter, Row.flagged, BanEntry.flagged, hf]

theorem get?_active_eq_none : w.active.get? ip = none ↔ w.flagged ip = false := by
  rw [active, Dict.get?_mapValues, Dict.get?_filter, get?_rows, flagged]
  cases w.table.get? ip with
  | none => simp
  | some e =>
    by_cases hf : 0 < e.gpc0 <;> simp [Option.filter, Row.flagged, BanEntry.flagged, hf]

end World

/-! ## What no write of the daemon changes -/

section Fixed

variable (w : World) (l : Write)

@[simp] theorem startedAt_apply : (l.apply w).startedAt = w.startedAt := by
  cases l with
  | sql op => cases op <;> rfl
  | _ => rfl

@[simp] theorem clock_apply : (l.apply w).clock = w.clock := by
  cases l with
  | sql op => cases op <;> rfl
  | _ => rfl

@[simp] theorem cycle_apply : (l.apply w).cycle = w.cycle := by
  cases l with
  | sql op => cases op <;> rfl
  | _ => rfl

@[simp] theorem tableExpire_apply : (l.apply w).tableExpire = w.tableExpire := by
  cases l with
  | sql op => cases op <;> rfl
  | _ => rfl

end Fixed

section Primitives

variable {I : Script → Prop} {guard : World → Write → Prop} {w : World} {α : Type}
  {Q : α → World → Prop} {E : Exc → World → Prop}

theorem wp_perform {l : Write} {Q : Unit → World → Prop} (hg : guard w l) (hq : Q () (l.apply w)) :
    WP I (By guard) (perform l) Q E w :=
  WP.write ⟨rfl, hg⟩ hq

theorem wp_remember {f : Memory → Memory} {Q : Unit → World → Prop}
    (hg : guard w (.memory (f w.mem))) (hq : Q () { w with mem := f w.mem }) :
    WP I (By guard) (remember f) Q E w :=
  WP.bind (WP.get (wp_perform hg hq))

section Answers

variable {next : Script → Answer × Script} (hnext : ∀ i, I i → I (next i).2)

include hnext

theorem wp_command {l : Write} {Q : Bool → World → Prop} (hg : guard w l)
    (hdone : Q true (l.apply w)) (hrefused : ¬ Done next I → Q false w)
    (herr : ¬ Done next I → ∀ e, Exc.isOSError e → E e w ∧ E e (l.apply w)) :
    WP I (By guard) (command next l) Q E w := by
  apply WP.bind
  apply WP.ask hnext
  intro i hi
  have hfail (h : (next i).1 ≠ .done) : ¬ Done next I := fun hs => h (hs i hi)
  cases ha : (next i).1 with
  | done => exact WP.bind (wp_perform hg (WP.pure hdone))
  | refused => exact WP.pure (hrefused (hfail (ha ▸ Answer.noConfusion)))
  | tooLarge => exact WP.throw (herr (hfail (ha ▸ Answer.noConfusion)) _ rfl).1
  | lost performed =>
    have hf := hfail (ha ▸ Answer.noConfusion)
    cases performed with
    | false => exact WP.throw (herr hf _ rfl).1
    | true => exact WP.bind (wp_perform hg (WP.throw (herr hf _ rfl).2))

theorem wp_asking {done refused : M α} (hdone : WP I (By guard) done Q E w)
    (hrefused : ¬ Done next I → WP I (By guard) refused Q E w)
    (herr : ¬ Done next I → ∀ e, Exc.isOSError e → E e w) :
    WP I (By guard) (asking next done refused) Q E w := by
  apply WP.bind
  apply WP.ask hnext
  intro i hi
  have hfail (h : (next i).1 ≠ .done) : ¬ Done next I := fun hs => h (hs i hi)
  cases ha : (next i).1 with
  | done => exact hdone
  | refused => exact hrefused (hfail (ha ▸ Answer.noConfusion))
  | tooLarge => exact WP.throw (herr (hfail (ha ▸ Answer.noConfusion)) _ rfl)
  | lost performed => exact WP.throw (herr (hfail (ha ▸ Answer.noConfusion)) _ rfl)

end Answers

variable (hI : Closed I)

include hI

theorem wp_readTable {Q : Dict Ip Row → World → Prop} (hdone : Q w.rows w)
    (herr : ¬ ShowsDone I → ∀ e, Exc.isOSError e → E e w) :
    WP I (By guard) readTable Q E w :=
  wp_asking hI.show_ (WP.bind (WP.get (WP.pure hdone))) (fun h => WP.throw (herr h _ rfl)) herr

theorem wp_readSignedIn {Q : Dict Ip Int → World → Prop} (hdone : Q w.signedIn w)
    (herr : ¬ ShowsDone I → ∀ e, Exc.isOSError e → E e w) :
    WP I (By guard) readSignedIn Q E w :=
  wp_asking hI.show_ (WP.bind (WP.get (WP.pure hdone))) (fun h => WP.throw (herr h _ rfl)) herr

theorem wp_listTables {Q : Bool → World → Prop} (hdone : Q true w)
    (hrefused : ¬ ListsDone I → Q false w)
    (herr : ¬ ListsDone I → ∀ e, Exc.isOSError e → E e w) :
    WP I (By guard) listTables Q E w :=
  wp_asking hI.list (WP.pure hdone) (fun h => WP.pure (hrefused h)) herr

theorem wp_startedAt {Q : Int → World → Prop} (hdone : Q w.startedAt w)
    (hfailed : ¬ InfosDone I → Q 0 w) : WP I (By guard) Enforcer.startedAt Q E w := by
  apply WP.bind
  apply WP.ask hI.info
  intro i hi
  have hfail (h : i.nextInfo.1 ≠ .done) : ¬ InfosDone I := fun hs => h (hs i hi)
  cases ha : i.nextInfo.1 with
  | done => exact WP.bind (WP.get (WP.pure hdone))
  | refused => exact WP.pure (hfailed (hfail (ha ▸ Answer.noConfusion)))
  | tooLarge => exact WP.pure (hfailed (hfail (ha ▸ Answer.noConfusion)))
  | lost performed => exact WP.pure (hfailed (hfail (ha ▸ Answer.noConfusion)))

theorem wp_sql {op : DbWrite} {Q : Unit → World → Prop} (hg : guard w (.sql op))
    (hq : Q () ((Write.sql op).apply w)) (herr : ¬ SqlDone I → E .sqlite w) :
    WP I (By guard) (sql op) Q E w := by
  apply WP.bind
  apply WP.ask hI.sql
  intro i hi
  cases ha : i.nextSql.1 with
  | true => exact wp_perform hg hq
  | false => exact WP.throw (herr (fun hs => by simpa [ha] using hs i hi))

theorem wp_setState {f : GuardState → GuardState} {Q : Unit → World → Prop}
    (hg : guard w (.sql (.setState (f w.db.state))))
    (hq : Q () { w with db := { w.db with state := f w.db.state } })
    (herr : ¬ SqlDone I → E .sqlite w) : WP I (By guard) (setState f) Q E w :=
  WP.bind (WP.get (wp_sql hI hg hq herr))

theorem wp_recordDecision {d : Decision} {Q : Nat → World → Prop}
    (hg : guard w (.sql (.recordDecision d)))
    (hq : Q w.db.nextDecisionId ((Write.sql (.recordDecision d)).apply w))
    (herr : ¬ SqlDone I → E .sqlite w) : WP I (By guard) (recordDecision d) Q E w :=
  WP.bind (WP.get (WP.bind (wp_sql hI hg (WP.pure hq) herr)))

/-! ## The enforcer -/

theorem wp_clear {ip : Ip} {lifting : Lifting} {Q : Unit → World → Prop}
    (hg : guard w (.clearTable ip lifting)) (hdone : Q () { w with table := w.table.erase ip })
    (herr : ¬ ClearsDone I → ∀ e, Exc.isOSError e → E e w ∧ E e { w with table := w.table.erase ip }) :
    WP I (By guard) (Enforcer.clear ip lifting) Q E w := by
  apply WP.bind
  apply wp_command hI.clear hg
  · exact WP.pure hdone
  · exact fun hc => WP.throw (herr hc _ rfl).1
  · exact herr

theorem wp_liftCode {ip : Ip} {code : Int} {lifting : Lifting} {Q : Bool → World → Prop}
    (hother : ¬ w.carries ip code → Q false w)
    (hg : w.carries ip code → guard w (.clearTable ip lifting))
    (hlift : w.carries ip code → Q true { w with table := w.table.erase ip })
    (hread : ¬ ShowsDone I → ∀ e, Exc.isOSError e → E e w)
    (hclear : w.carries ip code → ¬ ClearsDone I → ∀ e, Exc.isOSError e →
      E e w ∧ E e { w with table := w.table.erase ip }) :
    WP I (By guard) (Enforcer.liftCode ip code lifting) Q E w := by
  apply WP.bind
  apply wp_readTable hI ?_ hread
  rw [World.get?_rows]
  cases ht : w.table.get? ip with
  | none =>
    apply WP.pure
    apply hother
    rintro ⟨e, he, -⟩
    simp [ht] at he
  | some e =>
    apply WP.ite
    · intro hne
      apply WP.pure
      apply hother
      rintro ⟨e', he', hc⟩
      rw [ht, Option.some.injEq] at he'
      subst he'
      exact hne hc
    · intro heq
      have hc : w.carries ip code := ⟨e, ht, not_not.mp heq⟩
      exact WP.bind (wp_clear hI (hg hc) (WP.pure (hlift hc)) (hclear hc))

theorem wp_activeBans {Q : Dict Ip Int → World → Prop} (hdone : Q w.active w)
    (herr : ¬ ShowsDone I → ∀ e, Exc.isOSError e → E e w) :
    WP I (By guard) Enforcer.activeBans Q E w :=
  WP.bind (wp_readTable hI (WP.pure hdone) herr)

theorem wp_adaptiveBans {Q : List Ip → World → Prop}
    (hdone : ∀ ips, (∀ ip, ip ∈ ips ↔ w.holds ip adaptiveBanCode) → Q ips w)
    (herr : ¬ ShowsDone I → ∀ e, Exc.isOSError e → E e w) :
    WP I (By guard) Enforcer.adaptiveBans Q E w := by
  refine WP.bind (wp_readTable hI (WP.pure (hdone _ ?_)) herr)
  intro ip
  rw [Dict.mem_keys, Dict.get?_filter, World.get?_rows]
  unfold World.holds
  cases w.table.get? ip with
  | none => simp
  | some e =>
    by_cases hf : 0 < e.gpc0 <;> by_cases hc : e.gpt0 = adaptiveBanCode <;>
      simp [Option.filter, Row.flagged, BanEntry.flagged, hf, hc]

theorem wp_ban {ip : Ip} {placing : Placing} {Q : Bool → World → Prop}
    (hoff : w.mem.mode ≠ .enforce ∨ enforceable ip = false → Q false w)
    (hg : w.mem.mode = .enforce → enforceable ip → guard w (.setTable ip placing))
    (hdone : w.mem.mode = .enforce → enforceable ip → Q true (w.setTable ip placing))
    (hrefused : ¬ SetsDone I → Q false w)
    (herr : ¬ SetsDone I → w.mem.mode = .enforce → enforceable ip → ∀ e, Exc.isOSError e →
      E e w ∧ E e (w.setTable ip placing)) :
    WP I (By guard) (Enforcer.ban ip placing) Q E w := by
  refine WP.bind (WP.get ?_)
  refine WP.ite (fun hm => WP.pure (hoff (Or.inl hm))) (fun hm => ?_)
  have hm := not_not.mp hm
  refine WP.ite (fun he => WP.pure (hoff (Or.inr (by simpa using he)))) (fun he => ?_)
  have he : enforceable ip = true := by simpa using he
  exact wp_command hI.set (hg hm he) (hdone hm he) hrefused (fun hs => herr hs hm he)

theorem wp_restore {ip : Ip} {placing : Placing} {Q : Bool → World → Prop}
    (hoff : enforceable ip = false → Q false w)
    (hg : enforceable ip → guard w (.setTable ip placing))
    (hdone : enforceable ip → Q true (w.setTable ip placing))
    (hrefused : ¬ SetsDone I → Q false w)
    (herr : ¬ SetsDone I → enforceable ip → ∀ e, Exc.isOSError e →
      E e w ∧ E e (w.setTable ip placing)) :
    WP I (By guard) (Enforcer.restore ip placing) Q E w := by
  refine WP.ite (fun he => WP.pure (hoff (by simpa using he))) (fun he => ?_)
  have he : enforceable ip = true := by simpa using he
  exact wp_command hI.set (hg he) (hdone he) hrefused (fun hs => herr hs he)

theorem wp_liftLegacy {ip : Ip} {Q : Int → World → Prop} (hother : Q 0 w)
    (hg : (∃ code ∈ legacyBanCodes, w.holds ip code) → guard w (.clearTable ip .legacy))
    (hlift : ∀ code ∈ legacyBanCodes, w.holds ip code → Q code { w with table := w.table.erase ip })
    (hread : ¬ ShowsDone I → ∀ e, Exc.isOSError e → E e w)
    (hclear : (∃ code ∈ legacyBanCodes, w.holds ip code) → ¬ ClearsDone I → ∀ e, Exc.isOSError e →
      E e w ∧ E e { w with table := w.table.erase ip }) :
    WP I (By guard) (Enforcer.liftLegacy ip) Q E w := by
  refine WP.bind (wp_readTable hI ?_ hread)
  rw [World.get?_rows]
  cases ht : w.table.get? ip with
  | none => exact WP.pure hother
  | some e =>
    refine WP.ite (fun _ => WP.pure hother) (fun hf => ?_)
    refine WP.ite (fun _ => WP.pure hother) (fun hc => ?_)
    have hc : e.gpt0 ∈ legacyBanCodes := not_not.mp hc
    have hh : w.holds ip e.gpt0 := by simpa [World.holds, ht, Row.flagged, BanEntry.flagged] using hf
    exact WP.bind (wp_clear hI (hg ⟨_, hc, hh⟩) (WP.pure (hlift _ hc hh)) (hclear ⟨_, hc, hh⟩))

theorem wp_release {ip : Ip} {Q : Bool → World → Prop}
    (hother : w.flagged ip = false → Q false w)
    (hg : w.flagged ip → guard w (.unflag ip))
    (hdone : w.flagged ip → Q true (w.unflag ip))
    (hread : ¬ ShowsDone I → ∀ e, Exc.isOSError e → E e w)
    (hset : w.flagged ip → ¬ SetsDone I → ∀ e, Exc.isOSError e → E e w ∧ E e (w.unflag ip)) :
    WP I (By guard) (Enforcer.release ip) Q E w := by
  refine WP.bind (wp_readTable hI ?_ hread)
  rw [World.get?_rows]
  cases ht : w.table.get? ip with
  | none => exact WP.pure (hother (by simp [World.flagged, ht]))
  | some e =>
    refine WP.ite (fun hf => WP.pure (hother ?_)) (fun hf => ?_)
    · simpa [World.flagged, ht, Row.flagged, BanEntry.flagged] using hf
    · have hf : w.flagged ip := by simpa [World.flagged, ht, Row.flagged, BanEntry.flagged] using hf
      exact WP.bind (wp_command hI.set (hg hf) (WP.pure (hdone hf))
        (fun hs => WP.throw (hset hf hs _ rfl).1) (hset hf))

end Primitives

theorem wp_attempt {I : Script → Prop} {G : World → Write → World → Prop} {α : Type} {m : M α}
    {kind : Exc → Bool} {Q : Option α → World → Prop} {E : Exc → World → Prop} {w : World}
    (h : WP I G m (fun a => Q (some a))
      (fun e w' => if kind e then Q none w' else E e w') w) :
    WP I G (attempt kind m) Q E w := by
  apply WP.tryCatch
  apply WP.bind
  refine h.mono (fun a t ht => WP.pure ht) ?_
  intro e t ht
  split at ht
  · rename_i hk
    rw [if_pos hk]
    exact WP.pure ht
  · rename_i hk
    rw [if_neg hk]
    exact WP.throw ht

end EasyHaProxy.Guardd
