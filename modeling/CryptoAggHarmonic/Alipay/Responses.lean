import CryptoAggHarmonic.Alipay.Install
import CryptoAggHarmonic.Python.Lemmas.JsonText
import Mathlib.Data.List.Infix

/-!
# What the CLI answers

`_parse_response` and `_parse_payment_status`: the JSON in the output of the CLI, and the status of a payment.
-/

namespace CryptoAggHarmonic.Alipay

open JsonText PyOs

variable (ft : Yaml.FloatText)

/-- `stripped.startswith("{") or stripped.startswith("[")` -/
def opensJson (line : Text) : Bool :=
  match pyStrip line with
  | '\x7b' :: _ => true
  | '[' :: _ => true
  | _ => false

/-- `{"raw": raw}` -/
def rawResponse (raw : Text) : Yaml := .map [(.str "raw".toList, .str raw)]

/-- "Find first { or [ after any log lines" -/
def parseResponse (raw : Text) : Yaml :=
  match (splitlines raw).find? opensJson with
  | none => rawResponse raw
  | some line => (loads ft (pyStrip line)).getD (rawResponse raw)

inductive Status
  | paid
  | pending
  | refunded
  | unknown
  deriving DecidableEq

structure PaymentStatus where
  orderNo : Text
  status : Status
  paidAt : Yaml
  skillId : Yaml
  skillName : Yaml

/-- `str(value)` and `text.upper()` -/
structure Texts where
  str : Yaml → Text
  upper : Text → Text
  str_text : ∀ s, str (.str s) = s

variable (texts : Texts)

/-- `needle in text.upper()` -/
def Texts.has (needle : String) (text : Text) : Bool := decide (needle.toList <:+: texts.upper text)

def statusOf (statusText : Text) : Status :=
  if texts.has "PAID" statusText || texts.has "TRADE_SUCCESS" statusText then .paid
  else if texts.has "PENDING" statusText || texts.has "WAIT" statusText then .pending
  else if texts.has "REFUND" statusText then .refunded
  else .unknown

/-- `parsed.get(key)` -/
def getItem (key : String) (parsed : List (Yaml × Yaml)) : Yaml := (Yaml.lookup key.toList parsed).getD .null

/-- `str(parsed.get("status", parsed.get("trade_status", "")))` -/
def statusText (parsed : List (Yaml × Yaml)) : Text :=
  texts.str ((Yaml.lookup "status".toList parsed).getD ((Yaml.lookup "trade_status".toList parsed).getD (.str [])))

/-- An `AttributeError` for a response that is no object. -/
def parsePaymentStatus (raw orderNo : Text) : Except Unit PaymentStatus :=
  match parseResponse ft raw with
  | .map parsed =>
      .ok {
        orderNo
        status := statusOf texts (statusText texts parsed)
        paidAt :=
          if (getItem "gmt_payment" parsed).truthy then getItem "gmt_payment" parsed else getItem "pay_time" parsed
        skillId := getItem "skill_id" parsed
        skillName := getItem "skill_name" parsed }
  | _ => .error ()


/-! ## Lines -/

variable {ft : Yaml.FloatText} {log t line l b rest : Text} {c : Char}

/-- The line that is read at its first break or the end. -/
theorem splitlinesFrom_first (hne : line ≠ []) (hrest : ∀ c ∈ rest.head?, isLineBreak c = true) :
    ∃ lines, splitlinesFrom line rest = line.reverse :: lines := by
  cases rest with
  | nil => exact ⟨[], by rw [splitlinesFrom, if_neg hne]⟩
  | cons c rest =>
      have hc := hrest c rfl
      by_cases hcr : c ≠ '\r' ∨ rest.head? ≠ some '\n'
      · exact ⟨_, splitlinesFrom_break hc hcr⟩
      · simp only [not_or, not_not] at hcr
        obtain ⟨rfl, hnewline⟩ := hcr
        obtain ⟨rest, rfl⟩ := List.head?_eq_some_iff.mp hnewline
        exact ⟨_, by rw [splitlinesFrom]⟩

theorem space_pyIsSpace (h : space c = true) : pyIsSpace c = true := by
  simp only [space, decide_eq_true_eq] at h
  rcases h with rfl | rfl | rfl | rfl <;> rfl

/-- Up to the first break. -/
def firstLine (t : Text) : Text := t.takeWhile fun c => !isLineBreak c

theorem opensJson_blank (hline : ∀ c ∈ line, pyIsSpace c = true) : opensJson line.reverse = false := by
  have hstrip : pyStrip line.reverse = [] := by
    have h := pyStrip_append_left (s := []) (b := line.reverse) fun c hc => hline c (List.mem_reverse.mp hc)
    rw [List.append_nil] at h
    rw [h]
    rfl
  rw [opensJson, hstrip]

theorem firstLine_bracket : firstLine ('\x7b' :: t) = '\x7b' :: firstLine t := by
  rw [firstLine, List.takeWhile_cons_of_pos (by decide), firstLine]

/-- The stripped line of an opening bracket opens with it. -/
theorem exists_stripped (t : Text) : ∃ s e, firstLine ('\x7b' :: t) = '\x7b' :: s ++ e ∧
    pyStrip (firstLine ('\x7b' :: t)) = '\x7b' :: s := by
  have hhead : ∀ c ∈ (firstLine ('\x7b' :: t)).head?, pyIsSpace c = false := by
    rw [firstLine_bracket]
    intro c hc
    cases hc
    rfl
  have hne : pyStrip (firstLine ('\x7b' :: t)) ≠ [] :=
    pyStrip_ne_nil (c := '\x7b') (by rw [firstLine_bracket]; exact List.mem_cons_self) rfl
  obtain ⟨e, he⟩ := exists_pyStrip_append hhead
  obtain ⟨c, s, hs⟩ := List.exists_cons_of_ne_nil hne
  rw [hs] at he
  obtain rfl : '\x7b' = c := by
    rw [firstLine_bracket] at he
    exact (List.cons.inj he).1
  exact ⟨s, e, he, hs⟩

theorem find_bracket (hline : ∀ c ∈ line, pyIsSpace c = true) :
    ∃ found, (splitlinesFrom line ('\x7b' :: t)).find? opensJson = some found ∧
      pyStrip found = pyStrip (firstLine ('\x7b' :: t)) := by
  have hsplit : '\x7b' :: t = firstLine ('\x7b' :: t) ++ ('\x7b' :: t).dropWhile fun c => !isLineBreak c :=
    List.takeWhile_append_dropWhile.symm
  have hfirst : ∀ c ∈ firstLine ('\x7b' :: t), isLineBreak c = false := by
    intro c hc
    simpa using List.mem_takeWhile_imp hc
  have hrest : ∀ c ∈ (('\x7b' :: t).dropWhile fun c => !isLineBreak c).head?, isLineBreak c = true := by
    intro c hc
    simpa using dropWhile_head hc
  obtain ⟨s, e, -, hstrip⟩ := exists_stripped t
  have hne : (firstLine ('\x7b' :: t)).reverse ++ line ≠ [] := by simp [firstLine_bracket]
  obtain ⟨lines, hlines⟩ := splitlinesFrom_first hne hrest
  have hblank : pyStrip (line.reverse ++ firstLine ('\x7b' :: t)) = pyStrip (firstLine ('\x7b' :: t)) :=
    pyStrip_append_left fun c hc => hline c (List.mem_reverse.mp hc)
  refine ⟨line.reverse ++ firstLine ('\x7b' :: t), ?_, hblank⟩
  rw [hsplit, splitlinesFrom_line _ _ hfirst, hlines, List.reverse_append, List.reverse_reverse, ← hsplit,
    List.find?_cons_of_pos]
  rw [opensJson, hblank, hstrip]
  rfl

/-- Behind blanks, the line of an opening bracket is the first that opens. -/
theorem find_opening (hline : ∀ c ∈ line, pyIsSpace c = true) (hb : Blank b) :
    ∃ found, (splitlinesFrom line (b ++ '\x7b' :: t)).find? opensJson = some found ∧
      pyStrip found = pyStrip (firstLine ('\x7b' :: t)) := by
  fun_induction splitlinesFrom line b with
  | case1 => exact find_bracket hline
  | case2 => exact find_bracket hline
  | case3 line cs ih =>
      obtain ⟨found, hfind, hstrip⟩ := ih (by simp) fun c hc => hb c (by simp [hc])
      refine ⟨found, ?_, hstrip⟩
      rw [List.cons_append, List.cons_append, splitlinesFrom, List.find?_cons_of_neg (by simp [opensJson_blank hline]),
        hfind]
  | case4 line c cs hcr hc ih =>
      obtain ⟨found, hfind, hstrip⟩ := ih (by simp) fun c hc => hb c (List.mem_cons_of_mem _ hc)
      refine ⟨found, ?_, hstrip⟩
      have hcr' : c ≠ '\r' ∨ (cs ++ '\x7b' :: t).head? ≠ some '\n' := by
        cases cs with
        | nil => exact Or.inr (by simp)
        | cons d cs =>
            by_contra hboth
            simp only [List.cons_append, List.head?_cons, Option.some.injEq, not_or, not_not] at hboth
            exact hcr cs hboth.1 (by rw [hboth.2])
      rw [List.cons_append, splitlinesFrom_break hc hcr', List.find?_cons_of_neg (by simp [opensJson_blank hline]),
        hfind]
  | case5 line c cs hcr hc ih =>
      have hblank : ∀ d ∈ c :: line, pyIsSpace d = true :=
        List.forall_mem_cons.mpr ⟨space_pyIsSpace (hb c List.mem_cons_self), hline⟩
      obtain ⟨found, hfind, hstrip⟩ := ih hblank fun c hc => hb c (List.mem_cons_of_mem _ hc)
      refine ⟨found, ?_, hstrip⟩
      have hfirst := splitlinesFrom_line (l := [c]) line (cs ++ '\x7b' :: t) (by simpa using hc)
      simp only [List.singleton_append, List.reverse_singleton] at hfirst
      rw [List.cons_append, hfirst, hfind]

end CryptoAggHarmonic.Alipay
