import EasyHaProxy.Lib.Decimal
import Mathlib.Data.List.Forall2

/-! Rules of matches and a target, chains that are evaluated first match first, and the text that
`iptables-restore --noflush` reads into the chains of the tables. -/
namespace EasyHaProxy.Netfilter

open EasyHaProxy.Text

variable {Addr : Type}

inductive Proto | udp | tcp | other
  deriving DecidableEq

inductive ConnState | new | established | related | invalid
  deriving DecidableEq

structure Packet (Addr : Type) where
  proto : Proto
  src : Addr
  dst : Addr
  dport : Nat
  state : ConnState

inductive Match (Addr : Type)
  | proto (p : Proto)
  | dst (a : Addr)
  | dport (first last : Nat)
  | ctstate (among : List ConnState)
  /-- Whether the source is in a set, and whether it has to be. -/
  | set (name : String) (wanted : Bool)

inductive Target (Addr : Type)
  | accept
  | drop
  | masquerade
  | dnat (dest : Addr) (port : Nat)

structure Rule (Addr : Type) where
  matchers : List (Match Addr)
  target : Target Addr

abbrev Sets (Addr : Type) := String → Addr → Bool

/-- The chains of every table. -/
abbrev Tables (Addr : Type) := String → String → List (Rule Addr)

section Verdict

variable [DecidableEq Addr]

def Match.holds (sets : Sets Addr) (p : Packet Addr) : Match Addr → Bool
  | .proto q => p.proto = q
  | .dst a => p.dst = a
  | .dport first last => first ≤ p.dport ∧ p.dport ≤ last
  | .ctstate among => p.state ∈ among
  | .set name wanted => sets name p.src = wanted

def Rule.applies (sets : Sets Addr) (p : Packet Addr) (r : Rule Addr) : Bool := r.matchers.all (·.holds sets p)

def verdict (sets : Sets Addr) (p : Packet Addr) (chain : List (Rule Addr)) : Option (Target Addr) :=
  (chain.find? (·.applies sets p)).map (·.target)

/-! ## What a chain decides -/

variable {sets : Sets Addr} {p : Packet Addr} {chain : List (Rule Addr)} {r : Rule Addr} {t : Target Addr}

@[simp] theorem holds_proto {q : Proto} : (Match.proto q).holds sets p = true ↔ p.proto = q := decide_eq_true_iff

@[simp] theorem holds_dst {a : Addr} : (Match.dst a).holds sets p = true ↔ p.dst = a := decide_eq_true_iff

@[simp] theorem holds_dport {first last : Nat} :
    (Match.dport first last : Match Addr).holds sets p = true ↔ first ≤ p.dport ∧ p.dport ≤ last := decide_eq_true_iff

@[simp] theorem holds_set {name : String} {wanted : Bool} :
    (Match.set name wanted).holds sets p = true ↔ sets name p.src = wanted := decide_eq_true_iff

theorem applies_iff : r.applies sets p = true ↔ ∀ m ∈ r.matchers, m.holds sets p = true := List.all_eq_true

theorem verdict_eq_none : verdict sets p chain = none ↔ ∀ r ∈ chain, r.applies sets p = false := by
  simp [verdict]

theorem verdict_of_target (h : ∀ r ∈ chain, r.target = t) :
    verdict sets p chain = some t ↔ ∃ r ∈ chain, r.applies sets p = true := by
  constructor
  · intro hv
    by_contra hno
    have hnone : verdict sets p chain = none := by
      rw [verdict_eq_none]
      intro r hr
      by_contra hr'
      exact hno ⟨r, hr, by simpa using hr'⟩
    rw [hnone] at hv
    cases hv
  · rintro ⟨r, hr, happ⟩
    obtain ⟨first, hfirst⟩ := Option.isSome_iff_exists.mp (List.find?_isSome.mpr ⟨r, hr, happ⟩)
    rw [verdict, hfirst, Option.map_some, h first (List.mem_of_find?_eq_some hfirst)]

/-- Where the rules that apply agree on the target, their order does not matter. -/
theorem verdict_of_agree (hr : r ∈ chain) (happ : r.applies sets p = true)
    (h : ∀ s ∈ chain, s.applies sets p = true → s.target = r.target) : verdict sets p chain = some r.target := by
  obtain ⟨first, hfirst⟩ := Option.isSome_iff_exists.mp (List.find?_isSome.mpr ⟨r, hr, happ⟩)
  rw [verdict, hfirst, Option.map_some]
  exact congrArg some (h first (List.mem_of_find?_eq_some hfirst) (List.find?_some hfirst))

end Verdict

/-! ## The text of a rule -/

def number? (text : List Char) : Option Nat :=
  if text ≠ [] ∧ text.all Char.isDigit then some (Nat.ofDigitChars 10 text 0) else none

/-- `--dport` takes a port, or two with a colon between them. -/
def readPorts (text : String) : Option (Nat × Nat) :=
  match text.toList.splitOn ':' with
  | [port] => (number? port).map fun n => (n, n)
  | [first, last] => (number? first).bind fun a => (number? last).map fun b => (a, b)
  | _ => none

def readState : List Char → Option ConnState
  | ['N', 'E', 'W'] => some .new
  | ['E', 'S', 'T', 'A', 'B', 'L', 'I', 'S', 'H', 'E', 'D'] => some .established
  | ['R', 'E', 'L', 'A', 'T', 'E', 'D'] => some .related
  | ['I', 'N', 'V', 'A', 'L', 'I', 'D'] => some .invalid
  | _ => none

def readStates (text : String) : Option (List ConnState) := (text.toList.splitOn ',').mapM readState

variable (readAddr : String → Option Addr)

/-- `--to-destination` takes an address and a port with a colon between them. -/
def readDestination (text : String) : Option (Addr × Nat) :=
  match text.toList.splitOn ':' with
  | [addr, port] => (readAddr (String.ofList addr)).bind fun a => (number? port).map fun n => (a, n)
  | _ => none

def Rule.and (m : Match Addr) (r : Rule Addr) : Rule Addr := { r with matchers := m :: r.matchers }

/-- The arguments of a rule, behind the name of its chain. -/
def readRule : List String → Option (Rule Addr)
  | "-p" :: "udp" :: rest => (readRule rest).map (.and (.proto .udp))
  | "-p" :: "tcp" :: rest => (readRule rest).map (.and (.proto .tcp))
  | "-d" :: addr :: rest => (readAddr addr).bind fun a => (readRule rest).map (.and (.dst a))
  | "--dport" :: ports :: rest =>
    (readPorts ports).bind fun (first, last) => (readRule rest).map (.and (.dport first last))
  | "-m" :: "conntrack" :: "--ctstate" :: states :: rest =>
    (readStates states).bind fun among => (readRule rest).map (.and (.ctstate among))
  | "-m" :: "set" :: "!" :: "--match-set" :: name :: "src" :: rest =>
    (readRule rest).map (.and (.set name false))
  | "-m" :: "set" :: "--match-set" :: name :: "src" :: rest => (readRule rest).map (.and (.set name true))
  | ["-j", "ACCEPT"] => some ⟨[], .accept⟩
  | ["-j", "DROP"] => some ⟨[], .drop⟩
  | ["-j", "MASQUERADE"] => some ⟨[], .masquerade⟩
  | ["-j", "DNAT", "--to-destination", text] =>
    (readDestination readAddr text).map fun (dest, port) => ⟨[], .dnat dest port⟩
  | _ => none

/-! ## The text of a transaction -/

/-- The tables as committed, and the table being read with its chains. -/
structure Reader (Addr : Type) where
  tables : Tables Addr
  current : Option (String × (String → List (Rule Addr)))

def flush (chain : String) (chains : String → List (Rule Addr)) : String → List (Rule Addr) :=
  fun name => if name = chain then [] else chains name

def append (chain : String) (r : Rule Addr) (chains : String → List (Rule Addr)) : String → List (Rule Addr) :=
  fun name => if name = chain then chains name ++ [r] else chains name

def commit (table : String) (chains : String → List (Rule Addr)) (tables : Tables Addr) : Tables Addr :=
  fun name => if name = table then chains else tables name

/-- A table begins, its chains change, its changes take effect. -/
def readWords (s : Reader Addr) (line : List String) : Option (Reader Addr) :=
  match s.current, line with
  | _, [] => some s
  | some (table, chains), ["COMMIT"] => some ⟨commit table chains s.tables, none⟩
  | some (table, chains), ["-F", chain] => some ⟨s.tables, some (table, flush chain chains)⟩
  | some (table, chains), "-A" :: chain :: args =>
    (readRule readAddr args).map fun r => ⟨s.tables, some (table, append chain r chains)⟩
  | none, [word] =>
    match word.toList with
    | '*' :: table => some ⟨s.tables, some (String.ofList table, s.tables (String.ofList table))⟩
    | _ => none
  | _, _ => none

def readLine (s : Reader Addr) (line : List Char) : Option (Reader Addr) :=
  readWords readAddr s ((words line).map String.ofList)

/-- The tables after the text is read, or nothing where a line cannot be. -/
def restore (tables : Tables Addr) (text : String) : Option (Tables Addr) :=
  ((text.toList.splitOn '\n').foldlM (readLine readAddr) ⟨tables, none⟩).map (·.tables)

/-! ## What is written is what is read -/

section Numbers

theorem number?_toDigits (n : Nat) : number? (Nat.toDigits 10 n) = some n := by
  have hdigits : (Nat.toDigits 10 n).all Char.isDigit = true :=
    List.all_eq_true.mpr fun _ hc => isDigit_of_mem_toDigits hc
  rw [number?, if_pos ⟨Nat.toDigits_ne_nil, hdigits⟩, Nat.ofDigitChars_ten_toDigits]

theorem readPorts_port (n : Nat) : readPorts (toString n) = some (n, n) := by
  rw [readPorts, toList_toString, splitOn_of_not_mem (not_mem_toDigits (by decide) n)]
  simp [number?_toDigits]

theorem readPorts_range (first last : Nat) :
    readPorts (toString first ++ ":" ++ toString last) = some (first, last) := by
  have htext : (toString first ++ ":" ++ toString last).toList = Nat.toDigits 10 first ++ ':' :: Nat.toDigits 10 last := by
    simp only [String.toList_append, toList_toString, List.append_assoc]
    rfl
  rw [readPorts, htext,
    splitOn_pair (not_mem_toDigits (by decide) first) (not_mem_toDigits (by decide) last)]
  simp [number?_toDigits]

variable {readAddr} in
theorem readDestination_text {addr : String} {a : Addr} (ha : readAddr addr = some a) (hc : ':' ∉ addr.toList)
    (n : Nat) : readDestination readAddr (addr ++ ":" ++ toString n) = some (a, n) := by
  have htext : (addr ++ ":" ++ toString n).toList = addr.toList ++ ':' :: Nat.toDigits 10 n := by
    simp only [String.toList_append, toList_toString, List.append_assoc]
    rfl
  rw [readDestination, htext, splitOn_pair hc (not_mem_toDigits (by decide) n)]
  simp [number?_toDigits, ha]

end Numbers

/-! ## A transaction -/

/-- The chains of a table that are emptied, and the rules that then go to the ends of its chains. -/
structure Block (Addr : Type) where
  table : String
  flushed : List String
  rules : List (String × Rule Addr)

def flushAll (names : List String) (chains : String → List (Rule Addr)) : String → List (Rule Addr) :=
  names.foldl (fun chains name => flush name chains) chains

def appendAll (rules : List (String × Rule Addr)) (chains : String → List (Rule Addr)) :
    String → List (Rule Addr) :=
  rules.foldl (fun chains r => append r.1 r.2 chains) chains

def Block.apply (b : Block Addr) (tables : Tables Addr) : Tables Addr :=
  commit b.table (appendAll b.rules (flushAll b.flushed (tables b.table))) tables

section Content

variable {chains : String → List (Rule Addr)} {names : List String} {name : String}
  {rules : List (String × Rule Addr)} {b : Block Addr} {tables : Tables Addr} {table : String}

theorem flushAll_apply : flushAll names chains name = if name ∈ names then [] else chains name := by
  unfold flushAll
  induction names generalizing chains with
  | nil => simp
  | cons first names ih =>
    rw [List.foldl_cons, ih]
    by_cases h : name = first <;> by_cases hm : name ∈ names <;> simp [flush, h, hm]

theorem appendAll_apply :
    appendAll rules chains name = chains name ++ (rules.filter (·.1 = name)).map (·.2) := by
  unfold appendAll
  induction rules generalizing chains with
  | nil => simp
  | cons r rules ih =>
    rw [List.foldl_cons, ih]
    by_cases h : r.1 = name
    · simp [append, h]
    · simp [append, h, Ne.symm h]

/-- A chain that is emptied holds just the rules written to it. -/
theorem Block.apply_flushed (h : name ∈ b.flushed) :
    b.apply tables b.table name = (b.rules.filter (·.1 = name)).map (·.2) := by
  simp [Block.apply, commit, appendAll_apply, flushAll_apply, h]

theorem Block.apply_other (h : table ≠ b.table) : b.apply tables table = tables table := by
  simp [Block.apply, commit, h]

end Content

section Written

variable {readAddr} {tables : Tables Addr} {table chain : String} {chains : String → List (Rule Addr)}
  {args : List String} {r : Rule Addr}

/-- The words of a line that adds a rule to a chain. -/
structure Writes (readAddr : String → Option Addr) (tokens : List String) (r : String × Rule Addr) : Prop where
  args : ∃ args, tokens = "-A" :: r.1 :: args ∧ readRule readAddr args = some r.2
  words : ∀ w ∈ tokens, IsWord w.toList

theorem forall_words {before after : List String} {w : String} (hbefore : ∀ v ∈ before, IsWord v.toList)
    (hw : IsWord w.toList) (hafter : ∀ v ∈ after, IsWord v.toList) : ∀ v ∈ before ++ w :: after, IsWord v.toList :=
  List.forall_mem_append.mpr ⟨hbefore, List.forall_mem_cons.mpr ⟨hw, hafter⟩⟩

theorem words_join {tokens : List String} (h : ∀ w ∈ tokens, IsWord w.toList) :
    (words (" ".intercalate tokens).toList).map String.ofList = tokens := by
  rw [String.toList_intercalate, words]
  have hclean : ∀ n ∈ tokens.map String.toList, Clean isSpace n := by
    intro n hn
    obtain ⟨w, hw, rfl⟩ := List.mem_map.mp hn
    exact (h w hw).clean
  have hpieces : pieces isSpace ([' '].intercalate (tokens.map String.toList)) = tokens.map String.toList :=
    pieces_intercalate (by decide) (by simp) hclean
  rw [show (" " : String).toList = [' '] from rfl, hpieces, List.map_map]
  simp [Function.comp_def]

theorem readLine_append {tokens : List String} {r : String × Rule Addr} (h : Writes readAddr tokens r) :
    readLine readAddr ⟨tables, some (table, chains)⟩ (" ".intercalate tokens).toList =
      some ⟨tables, some (table, append r.1 r.2 chains)⟩ := by
  obtain ⟨args, rfl, hargs⟩ := h.args
  rw [readLine, words_join h.words]
  simp [readWords, hargs]

theorem readLine_flush (h : IsWord chain.toList) :
    readLine readAddr ⟨tables, some (table, chains)⟩ ("-F " ++ chain).toList =
      some ⟨tables, some (table, flush chain chains)⟩ := by
  have hline : ("-F " ++ chain).toList = (" ".intercalate ["-F", chain]).toList := by simp
  have hw : ∀ w ∈ ["-F", chain], IsWord w.toList := by
    simp only [List.forall_mem_cons, List.not_mem_nil, false_implies, implies_true, and_true]
    exact ⟨by decide, h⟩
  rw [hline, readLine, words_join hw]
  rfl

theorem readLine_commit :
    readLine readAddr ⟨tables, some (table, chains)⟩ "COMMIT".toList = some ⟨commit table chains tables, none⟩ := by
  rfl

theorem readLine_table (h : IsWord table.toList) :
    readLine readAddr ⟨tables, none⟩ ("*" ++ table).toList = some ⟨tables, some (table, tables table)⟩ := by
  have hword : IsWord ("*" ++ table).toList := by
    rw [String.toList_append]
    refine ⟨by simp, fun c hc => ?_⟩
    rcases List.mem_append.mp hc with hc | hc
    · obtain rfl : c = '*' := by simpa using hc
      rfl
    · exact h.noBlank c hc
  have hw : (words (" ".intercalate ["*" ++ table]).toList).map String.ofList = ["*" ++ table] :=
    words_join (by simpa using hword)
  simp only [String.intercalate_singleton] at hw
  rw [readLine, hw]
  simp [readWords]

theorem readLine_nil (s : Reader Addr) : readLine readAddr s [] = some s := by
  simp [readLine, readWords]

structure Block.Written (readAddr : String → Option Addr) (b : Block Addr) (lines : List String) : Prop where
  table : IsWord b.table.toList
  flushed : ∀ chain ∈ b.flushed, IsWord chain.toList
  lines : ∃ commands, List.Forall₂ (Writes readAddr) commands b.rules ∧
    lines = ("*" ++ b.table) :: (b.flushed.map ("-F " ++ ·) ++ (commands.map (" ".intercalate ·) ++ ["COMMIT"]))

theorem foldlM_flush {names : List String} (h : ∀ chain ∈ names, IsWord chain.toList) :
    ((names.map ("-F " ++ ·)).map String.toList).foldlM (readLine readAddr) ⟨tables, some (table, chains)⟩ =
      some ⟨tables, some (table, flushAll names chains)⟩ := by
  induction names generalizing chains with
  | nil => rfl
  | cons name names ih =>
    rw [List.map_cons, List.map_cons, List.foldlM_cons, readLine_flush (h name List.mem_cons_self)]
    exact ih fun chain hc => h chain (List.mem_cons_of_mem name hc)

theorem foldlM_append {commands : List (List String)} {rules : List (String × Rule Addr)}
    (h : List.Forall₂ (Writes readAddr) commands rules) :
    ((commands.map (" ".intercalate ·)).map String.toList).foldlM (readLine readAddr)
        ⟨tables, some (table, chains)⟩ = some ⟨tables, some (table, appendAll rules chains)⟩ := by
  induction h generalizing chains with
  | nil => rfl
  | cons hw _ ih =>
    rw [List.map_cons, List.map_cons, List.foldlM_cons, readLine_append hw]
    exact ih

theorem Block.foldlM {b : Block Addr} {lines : List String} (h : b.Written readAddr lines) :
    (lines.map String.toList).foldlM (readLine readAddr) ⟨tables, none⟩ = some ⟨b.apply tables, none⟩ := by
  obtain ⟨commands, hcommands, rfl⟩ := h.lines
  rw [List.map_cons, List.foldlM_cons, readLine_table h.table, Option.bind_eq_bind, Option.bind_some,
    List.map_append, List.foldlM_append, foldlM_flush h.flushed, Option.bind_eq_bind, Option.bind_some,
    List.map_append, List.foldlM_append, foldlM_append hcommands, Option.bind_eq_bind, Option.bind_some,
    List.map_cons, List.map_nil, List.foldlM_cons, readLine_commit]
  rfl

theorem writes_flatMap {α : Type} {f : α → List (List String)} {g : α → List (String × Rule Addr)}
    (h : ∀ a, List.Forall₂ (Writes readAddr) (f a) (g a)) (l : List α) :
    List.Forall₂ (Writes readAddr) (l.flatMap f) (l.flatMap g) := by
  induction l with
  | nil => exact List.Forall₂.nil
  | cons a l ih =>
    rw [List.flatMap_cons, List.flatMap_cons]
    exact List.rel_append (h a) ih

theorem words_of_writes {commands : List (List String)} {rules : List (String × Rule Addr)}
    (h : List.Forall₂ (Writes readAddr) commands rules) :
    ∀ tokens ∈ commands, ∀ w ∈ tokens, IsWord w.toList := by
  induction h with
  | nil => simp
  | cons hw _ ih => exact List.forall_mem_cons.mpr ⟨hw.words, ih⟩

theorem Block.Written.newline {b : Block Addr} {lines : List String} (h : b.Written readAddr lines) :
    ∀ line ∈ lines, '\n' ∉ line.toList := by
  obtain ⟨commands, hcommands, rfl⟩ := h.lines
  have hword : ∀ {w : String}, IsWord w.toList → '\n' ∉ w.toList := fun hw hc => by
    have := hw.noBlank _ hc
    revert this
    decide
  intro line hline
  simp only [List.mem_cons, List.mem_append, List.mem_map, List.not_mem_nil, or_false] at hline
  rcases hline with rfl | ⟨chain, hchain, rfl⟩ | ⟨tokens, htokens, rfl⟩ | rfl
  · simpa [String.toList_append] using hword h.table
  · simpa [String.toList_append] using hword (h.flushed chain hchain)
  · intro hc
    rw [String.toList_intercalate] at hc
    rcases mem_intercalate hc with hc | ⟨w, hw, hc⟩
    · revert hc
      decide
    · obtain ⟨token, htoken, rfl⟩ := List.mem_map.mp hw
      exact hword (words_of_writes hcommands tokens htokens token htoken) hc
  · decide

theorem intercalate_concat_nil {sep : List Char} {lines : List (List Char)} (hne : lines ≠ []) :
    sep.intercalate (lines ++ [[]]) = sep.intercalate lines ++ sep := by
  induction lines with
  | nil => exact absurd rfl hne
  | cons line lines ih =>
    cases lines with
    | nil => simp
    | cons next lines =>
      rw [List.cons_append, List.cons_append, List.intercalate_cons_cons, ← List.cons_append, ih (by simp),
        List.intercalate_cons_cons, List.append_assoc _ _ sep]

theorem restore_written {blocks : List (Block Addr)} {texts : List (List String)}
    (h : List.Forall₂ (Block.Written readAddr) blocks texts) (hne : texts.flatten ≠ []) :
    restore readAddr tables ("\n".intercalate texts.flatten ++ "\n") =
      some (blocks.foldl (fun tables b => b.apply tables) tables) := by
  have hline : ∀ line ∈ texts.flatten, '\n' ∉ line.toList := by
    clear hne
    induction h with
    | nil => simp
    | cons hb _ ih =>
      rw [List.flatten_cons]
      exact List.forall_mem_append.mpr ⟨hb.newline, ih⟩
  -- the last line's end leaves one empty line, which is passed over
  have hsplit : ("\n".intercalate texts.flatten ++ "\n").toList.splitOn '\n' =
      texts.flatten.map String.toList ++ [[]] := by
    have hjoin : ("\n".intercalate texts.flatten ++ "\n").toList =
        ['\n'].intercalate (texts.flatten.map String.toList ++ [[]]) := by
      rw [String.toList_append, String.toList_intercalate, intercalate_concat_nil (by simpa using hne)]
      rfl
    rw [hjoin, List.splitOn_intercalate]
    · intro line hl
      rcases List.mem_append.mp hl with hl | hl
      · obtain ⟨text, htext, rfl⟩ := List.mem_map.mp hl
        exact hline text htext
      · simp [List.mem_singleton.mp hl]
    · simp
  have hfold : ∀ tables : Tables Addr, (texts.flatten.map String.toList).foldlM (readLine readAddr) ⟨tables, none⟩ =
      some ⟨blocks.foldl (fun tables b => b.apply tables) tables, none⟩ := by
    clear hsplit hline hne
    induction h with
    | nil => exact fun _ => rfl
    | cons hb _ ih =>
      intro tables
      rw [List.flatten_cons, List.map_append, List.foldlM_append, Block.foldlM hb, Option.bind_eq_bind,
        Option.bind_some]
      exact ih _
  rw [restore, hsplit, List.foldlM_append, hfold, Option.bind_eq_bind, Option.bind_some, List.foldlM_cons,
    readLine_nil]
  rfl

end Written

end EasyHaProxy.Netfilter
