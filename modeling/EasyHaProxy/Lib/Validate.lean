import Mathlib.Data.List.Sort
import Mathlib.Data.List.Dedup
import Mathlib.Data.String.Basic
import Mathlib.Tactic.Common

/-! A validator in `Except`: the first check that fails refuses the whole document. What it accepts is read
off with `bind_eq_ok` and `require_eq_ok`, check by check. -/
namespace EasyHaProxy.Validate

variable {ε α β : Type}

theorem bind_eq_ok {x : Except ε α} {f : α → Except ε β} {b : β} :
    x >>= f = .ok b ↔ ∃ a, x = .ok a ∧ f a = .ok b := by
  cases x with
  | error e => simp [bind, Except.bind]
  | ok a => simp [bind, Except.bind]

/-- Go on only where `p` holds. -/
def require (p : Prop) [Decidable p] (e : ε) : Except ε Unit := if p then .ok () else .error e

@[simp] theorem require_eq_ok {p : Prop} [Decidable p] {e : ε} {u : Unit} :
    require p e = .ok u ↔ p := by
  unfold require
  split <;> simp_all

/-- Go on only with a value. -/
def expect (o : Option α) (e : ε) : Except ε α := o.elim (.error e) .ok

@[simp] theorem expect_eq_ok {o : Option α} {e : ε} {a : α} : expect o e = .ok a ↔ o = some a := by
  cases o <;> simp [expect]

@[simp] theorem pure_eq_ok {a b : α} : (pure a : Except ε α) = .ok b ↔ a = b := by
  simp [pure, Except.pure]

/-! ## Rows checked one after another -/

/-- Check the rows in order, each against those accepted before it. -/
def collect (check : List β → α → Except ε β) : List β → List α → Except ε (List β)
  | acc, [] => .ok acc
  | acc, row :: rows => do
    let b ← check acc row
    collect check (acc ++ [b]) rows

variable {check : List β → α → Except ε β}

theorem collect_cons_eq_ok {acc : List β} {row : α} {rows : List α} {out : List β} :
    collect check acc (row :: rows) = .ok out ↔
      ∃ b, check acc row = .ok b ∧ collect check (acc ++ [b]) rows = .ok out := by
  rw [collect, bind_eq_ok]

theorem length_of_collect {acc out : List β} {rows : List α}
    (h : collect check acc rows = .ok out) : out.length = acc.length + rows.length := by
  induction rows generalizing acc with
  | nil =>
    cases h
    rfl
  | cons r rows ih =>
    obtain ⟨b, -, hrest⟩ := collect_cons_eq_ok.mp h
    rw [ih hrest]
    simp only [List.length_append, List.length_cons, List.length_nil]
    omega

/-- Every row was accepted beside some accepted rows. -/
theorem check_of_collect {acc out : List β} {rows : List α}
    (h : collect check acc rows = .ok out) {row : α} (hr : row ∈ rows) :
    ∃ acc' b, check acc' row = .ok b := by
  induction rows generalizing acc with
  | nil => simp at hr
  | cons r rows ih =>
    obtain ⟨b, hb, hrest⟩ := collect_cons_eq_ok.mp h
    rcases List.mem_cons.mp hr with rfl | hr
    · exact ⟨acc, b, hb⟩
    · exact ih hrest hr

/-- A property of accepted rows beside the rows before them holds throughout the result. -/
theorem collect_forall {P : List β → β → Prop} (hP : ∀ acc row b, check acc row = .ok b → P acc b)
    {acc out : List β} {rows : List α} (h : collect check acc rows = .ok out) :
    ∃ new, out = acc ++ new ∧ ∀ pre b post, new = pre ++ b :: post → P (acc ++ pre) b := by
  induction rows generalizing acc with
  | nil =>
    refine ⟨[], ?_, ?_⟩
    · simpa [collect] using h.symm
    · intro pre b post he
      simp at he
  | cons r rows ih =>
    obtain ⟨b, hb, hrest⟩ := collect_cons_eq_ok.mp h
    obtain ⟨new, rfl, hnew⟩ := ih hrest
    refine ⟨b :: new, by simp, ?_⟩
    intro pre c post he
    cases pre with
    | nil =>
      obtain ⟨rfl, rfl⟩ : b = c ∧ new = post := by simpa using he
      simpa using hP _ _ _ hb
    | cons d pre =>
      obtain ⟨rfl, htail⟩ : b = d ∧ new = pre ++ c :: post := by simpa using he
      simpa using hnew pre c post htail

/-- Rows that pass again beside the same rows before them are collected again. -/
theorem collect_again {encode : β → α} {acc new : List β}
    (h : ∀ pre b post, new = pre ++ b :: post → check (acc ++ pre) (encode b) = .ok b) :
    collect check acc (new.map encode) = .ok (acc ++ new) := by
  induction new generalizing acc with
  | nil => simp [collect]
  | cons b new ih =>
    rw [List.map_cons, collect_cons_eq_ok]
    refine ⟨b, by simpa using h [] b new rfl, ?_⟩
    rw [ih]
    · simp
    · intro pre c post he
      simpa using h (b :: pre) c post (by simp [he])

theorem collect_recheck {check' : List β → α → Except ε β} {encode : β → α} {rows : List α}
    {out : List β} (h : collect check [] rows = .ok out)
    (hre : ∀ acc row, ∀ b ∈ out, check acc row = .ok b → check' acc (encode b) = .ok b) :
    collect check' [] (out.map encode) = .ok out := by
  obtain ⟨new, rfl, hnew⟩ := collect_forall (P := fun acc b => ∃ row, check acc row = .ok b)
    (fun _ row _ hrow => ⟨row, hrow⟩) h
  apply collect_again
  intro pre b post he
  obtain ⟨row, hrow⟩ := hnew pre b post he
  have hb : b ∈ pre ++ b :: post := List.mem_append_right pre List.mem_cons_self
  exact hre _ row b (he ▸ hb) hrow

/-! ## Members of a list, read one by one -/

theorem mapM_cons_eq_ok {f : α → Except ε β} {a : α} {l : List α} {out : List β} :
    (a :: l).mapM f = .ok out ↔ ∃ b bs, f a = .ok b ∧ l.mapM f = .ok bs ∧ out = b :: bs := by
  rw [List.mapM_cons, bind_eq_ok]
  constructor
  · rintro ⟨b, hb, h⟩
    obtain ⟨bs, hbs, h⟩ := bind_eq_ok.mp h
    exact ⟨b, bs, hb, hbs, (pure_eq_ok.mp h).symm⟩
  · rintro ⟨b, bs, hb, hbs, rfl⟩
    exact ⟨b, hb, bind_eq_ok.mpr ⟨bs, hbs, rfl⟩⟩

theorem mem_of_mapM_ok {f : α → Except ε β} {l : List α} {out : List β} {b : β}
    (h : l.mapM f = .ok out) (hb : b ∈ out) : ∃ a ∈ l, f a = .ok b := by
  induction l generalizing out with
  | nil =>
    cases h
    simp at hb
  | cons a l ih =>
    obtain ⟨c, cs, hc, hcs, rfl⟩ := mapM_cons_eq_ok.mp h
    rcases List.mem_cons.mp hb with rfl | hb
    · exact ⟨a, List.mem_cons_self, hc⟩
    · obtain ⟨d, hd, hf⟩ := ih hcs hb
      exact ⟨d, List.mem_cons_of_mem a hd, hf⟩

theorem ok_of_mapM_ok {f : α → Except ε β} {l : List α} {out : List β} {a : α}
    (h : l.mapM f = .ok out) (ha : a ∈ l) : ∃ b, f a = .ok b := by
  induction l generalizing out with
  | nil => simp at ha
  | cons c l ih =>
    obtain ⟨b, bs, hb, hbs, -⟩ := mapM_cons_eq_ok.mp h
    rcases List.mem_cons.mp ha with rfl | ha
    · exact ⟨b, hb⟩
    · exact ih hbs ha

theorem length_of_mapM_ok {f : α → Except ε β} {l : List α} {out : List β}
    (h : l.mapM f = .ok out) : out.length = l.length := by
  induction l generalizing out with
  | nil =>
    cases h
    rfl
  | cons a l ih =>
    obtain ⟨c, cs, -, hcs, rfl⟩ := mapM_cons_eq_ok.mp h
    simp [ih hcs]

theorem mapM_map_eq_ok {f : α → Except ε β} {encode : β → α} {l : List β}
    (h : ∀ b ∈ l, f (encode b) = .ok b) : (l.map encode).mapM f = .ok l := by
  induction l with
  | nil => rfl
  | cons b l ih =>
    rw [List.map_cons, mapM_cons_eq_ok]
    exact ⟨b, l, h b List.mem_cons_self, ih (fun c hc => h c (List.mem_cons_of_mem b hc)), rfl⟩

/-! ## `sorted(set(..))` -/

section SortedSet

variable [LinearOrder α]

def sortedSet (l : List α) : List α := l.dedup.insertionSort (· ≤ ·)

@[simp] theorem mem_sortedSet {a : α} {l : List α} : a ∈ sortedSet l ↔ a ∈ l := by
  simp [sortedSet]

theorem length_sortedSet_le (l : List α) : (sortedSet l).length ≤ l.length := by
  unfold sortedSet
  rw [List.length_insertionSort]
  exact (List.dedup_sublist l).length_le

theorem sortedSet_sortedSet (l : List α) : sortedSet (sortedSet l) = sortedSet l := by
  have hn : (sortedSet l).Nodup :=
    (List.perm_insertionSort (· ≤ ·) l.dedup).nodup_iff.mpr (List.nodup_dedup l)
  have hs : (sortedSet l).Pairwise (· ≤ ·) := List.pairwise_insertionSort _ _
  rw [sortedSet, List.Nodup.dedup hn]
  exact List.Pairwise.insertionSort_eq hs

end SortedSet

end EasyHaProxy.Validate
