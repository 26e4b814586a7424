import Mathlib.Data.List.Nodup
import CryptoAggHarmonic.Python.Lemmas.JsonText

/-!
# Tool calls in a reply

`PromptProvider` of `app/services/vibe/llm/prompt_provider.py`: a model without tool calls of its own writes them as JSON
objects into its reply, line by line, in prose or in fenced blocks.
-/

namespace CryptoAggHarmonic.Vibe

open PyOs (Text)
open JsonText (Blank ObjectText StringText)

/-! ## Objects in a text -/

/-- The state of the balancing of braces. -/
structure Scanner where
  depth : ℕ
  inString : Bool
  escape : Bool
  deriving DecidableEq

/-- The text up to the brace that closes the object, or nothing when the text ends first. -/
def closeObject (s : Scanner) : Text → Option Text
  | [] => none
  | ch :: cs =>
      if s.escape then (closeObject { s with escape := false } cs).map (ch :: ·)
      else if ch = '\\' then (closeObject { s with escape := true } cs).map (ch :: ·)
      else if ch = '"' then (closeObject { s with inString := !s.inString } cs).map (ch :: ·)
      else if s.inString then (closeObject s cs).map (ch :: ·)
      else if ch = '\x7b' then (closeObject { s with depth := s.depth + 1 } cs).map (ch :: ·)
      else if ch = '\x7d' then
        if s.depth - 1 = 0 then some [ch] else (closeObject { s with depth := s.depth - 1 } cs).map (ch :: ·)
      else (closeObject s cs).map (ch :: ·)

/-- The scan from the next position, when as many characters as said belong to the object found last. -/
def extractFrom : ℕ → Text → List Text
  | _, [] => []
  | skip + 1, _ :: cs => extractFrom skip cs
  | 0, ch :: cs =>
      if ch ≠ '\x7b' then extractFrom 0 cs
      else
        match closeObject ⟨0, false, false⟩ (ch :: cs) with
        | some object => object :: extractFrom (object.length - 1) cs
        | none => extractFrom 0 cs

/-- `_extract_json_objects` -/
def extractJsonObjects (text : Text) : List Text := extractFrom 0 text

/-! ## Fenced blocks -/

/-- Three backticks. -/
def fence : Text := ['\x60', '\x60', '\x60']

/-- `(?:json)?` without regard to case, where the long s is an s. -/
def tag : Text → Text
  | j :: s :: o :: n :: cs =>
      if j ∈ ['j', 'J'] ∧ s ∈ ['s', 'S', '\u017f'] ∧ o ∈ ['o', 'O'] ∧ n ∈ ['n', 'N'] then cs else j :: s :: o :: n :: cs
  | cs => cs

/-- The match of `_FENCED_JSON_RE` at the beginning of a text: its length and its group. -/
def matchFence (text : Text) : Option (ℕ × Text) :=
  if fence.isPrefixOf text then
    let body := (tag (text.drop 3)).dropWhile pyIsSpace
    (textBefore fence body).map fun group => (text.length - body.length + group.length + 3, group)
  else none

/-- `finditer`: every match with its group. -/
def fencedFrom : ℕ → Text → List (Text × Text)
  | _, [] => []
  | skip + 1, _ :: cs => fencedFrom skip cs
  | 0, ch :: cs =>
      match matchFence (ch :: cs) with
      | some (length, group) => ((ch :: cs).take length, group) :: fencedFrom (length - 1) cs
      | none => fencedFrom 0 cs

/-- `text.replace(old, "")`, where `old` is not empty. -/
def removeFrom (old : Text) : ℕ → Text → Text
  | _, [] => []
  | skip + 1, _ :: cs => removeFrom old skip cs
  | 0, ch :: cs => if old.isPrefixOf (ch :: cs) then removeFrom old (old.length - 1) cs else ch :: removeFrom old 0 cs

/-! ## Tool calls -/

structure ToolCall where
  id : String
  name : Yaml
  arguments : Yaml

variable (ft : Yaml.FloatText)

/-- The name and the arguments of a candidate that is an object with a tool. -/
def toolOf (candidate : Text) : Option (Yaml × Yaml) :=
  match JsonText.loads ft candidate with
  | some (.map data) =>
      (Yaml.lookup "tool".toList data).map fun tool => (tool, (Yaml.lookup "arguments".toList data).getD (.map []))
  | _ => none

/-- The tool calls of a line have its own numbers. -/
def numbered (tools : List (Yaml × Yaml)) : List ToolCall :=
  tools.mapIdx fun i tool => ⟨"prompt_" ++ toString i, tool.1, tool.2⟩

def candidates (text : Text) : List Text :=
  let blocks := fencedFrom 0 text
  let remaining := blocks.foldl (fun remaining block => removeFrom block.1 0 remaining) text
  blocks.flatMap (fun block => extractJsonObjects block.2) ++ extractJsonObjects remaining

/-- `_parse_tool_json` -/
def parseToolJson (text : Text) : List ToolCall := numbered ((candidates text).filterMap (toolOf ft))

/-- The tool calls of a line; a line of blanks has none. -/
def lineCalls (line : Text) : List ToolCall :=
  let stripped := pyStrip line
  if stripped = [] then [] else parseToolJson ft stripped

/-- `"\n".join(lines).strip() or None` -/
def contentOf (lines : List Text) : Option Text :=
  let content := pyStrip (['\n'].intercalate lines)
  if content = [] then none else some content

/-- `_parse_response`: the rest of the content, and the calls. -/
def parseResponse (text : Text) : Option Text × List ToolCall :=
  (contentOf ((splitlines text).filter fun line => (lineCalls ft line).isEmpty), (splitlines text).flatMap (lineCalls ft))

/-! ## Balanced texts -/

variable {ft} {u w r t p b cs rest : Text} {c : Char} {n : ℕ} {v : Yaml} {items : List (Yaml × Yaml)}

/-- Inside of an object the scanner comes through the text as it went in. -/
def Balanced (u : Text) : Prop :=
  ∀ d r, closeObject ⟨d + 1, false, false⟩ (u ++ r) = (closeObject ⟨d + 1, false, false⟩ r).map (u ++ ·)

theorem balanced_nil : Balanced [] := by
  intro d r
  simp

theorem Balanced.append (hu : Balanced u) (hw : Balanced w) : Balanced (u ++ w) := by
  intro d r
  rw [List.append_assoc, hu, hw, Option.map_map]
  simp [Function.comp_def]

theorem balanced_char (hc : c ∉ ['\\', '"', '\x7b', '\x7d']) : Balanced [c] := by
  intro d r
  simp only [List.mem_cons, List.not_mem_nil, or_false, not_or] at hc
  obtain ⟨hslash, hquote, hopen, hclose⟩ := hc
  simp [closeObject, hslash, hquote, hopen, hclose]

theorem balanced_chars (hu : ∀ c ∈ u, c ∉ ['\\', '"', '\x7b', '\x7d']) : Balanced u := by
  induction u with
  | nil => exact balanced_nil
  | cons c u ih =>
      exact (balanced_char (hu c List.mem_cons_self)).append (ih fun d hd => hu d (List.mem_cons_of_mem c hd))

theorem Balanced.braces (hu : Balanced u) : Balanced ('\x7b' :: (u ++ ['\x7d'])) := by
  intro d r
  have hopen : closeObject ⟨d + 1, false, false⟩ ('\x7b' :: (u ++ '\x7d' :: r)) =
      (closeObject ⟨d + 1 + 1, false, false⟩ (u ++ '\x7d' :: r)).map ('\x7b' :: ·) := by
    simp [closeObject]
  have hclose : closeObject ⟨d + 1 + 1, false, false⟩ ('\x7d' :: r) =
      (closeObject ⟨d + 1, false, false⟩ r).map ('\x7d' :: ·) := by
    simp [closeObject]
  rw [List.cons_append, List.append_assoc, List.singleton_append, hopen, hu, hclose, Option.map_map, Option.map_map]
  simp [Function.comp_def]

/-- From the brace that opens it the scanner finds the one that closes it. -/
theorem Balanced.closeObject (hu : Balanced u) (r : Text) :
    closeObject ⟨0, false, false⟩ ('\x7b' :: (u ++ '\x7d' :: r)) = some ('\x7b' :: (u ++ ['\x7d'])) := by
  have hopen : Vibe.closeObject ⟨0, false, false⟩ ('\x7b' :: (u ++ '\x7d' :: r)) =
      (Vibe.closeObject ⟨0 + 1, false, false⟩ (u ++ '\x7d' :: r)).map ('\x7b' :: ·) := by
    simp [Vibe.closeObject]
  rw [hopen, hu]
  simp [Vibe.closeObject]

/-! ## The text of a value is balanced -/

theorem hexDigit_plain {d : ℕ} (h : Yaml.hexDigit? c = some d) : c ≠ '\\' ∧ c ≠ '"' := by
  constructor
  · rintro rfl
    cases h
  · rintro rfl
    cases h

theorem hexDigits_plain {digits : Text} {values : List ℕ} (h : digits.mapM Yaml.hexDigit? = some values) :
    ∀ x ∈ digits, x ≠ '\\' ∧ x ≠ '"' := by
  induction digits generalizing values with
  | nil => simp
  | cons c digits ih =>
      simp only [List.mapM_cons, Option.bind_eq_bind, Option.bind_eq_some_iff] at h
      obtain ⟨value, hc, rest, hrest, -⟩ := h
      intro x hx
      rcases List.mem_cons.mp hx with rfl | hx
      · exact hexDigit_plain hc
      · exact ih hrest x hx

theorem closeObject_plain (d : ℕ) (hslash : c ≠ '\\') (hquote : c ≠ '"') (cs : Text) :
    closeObject ⟨d, true, false⟩ (c :: cs) = (closeObject ⟨d, true, false⟩ cs).map (c :: ·) := by
  simp [closeObject, hslash, hquote]

theorem closeObject_plains (d : ℕ) (hu : ∀ c ∈ u, c ≠ '\\' ∧ c ≠ '"') (cs : Text) :
    closeObject ⟨d, true, false⟩ (u ++ cs) = (closeObject ⟨d, true, false⟩ cs).map (u ++ ·) := by
  induction u with
  | nil => simp
  | cons c u ih =>
      obtain ⟨hslash, hquote⟩ := hu c List.mem_cons_self
      rw [List.cons_append, closeObject_plain d hslash hquote, ih fun x hx => hu x (List.mem_cons_of_mem c hx),
        Option.map_map]
      rfl

theorem closeObject_escape (d : ℕ) (e : Char) (cs : Text) :
    closeObject ⟨d, true, false⟩ ('\\' :: e :: cs) = (closeObject ⟨d, true, false⟩ cs).map ('\\' :: e :: ·) := by
  simp [closeObject, Function.comp_def]

theorem closeObject_unicode {a b c e : Char} (d : ℕ) (h : JsonText.hexValue? [a, b, c, e] = some n) (cs : Text) :
    closeObject ⟨d, true, false⟩ ('\\' :: 'u' :: a :: b :: c :: e :: cs) =
      (closeObject ⟨d, true, false⟩ cs).map ('\\' :: 'u' :: a :: b :: c :: e :: ·) := by
  obtain ⟨values, hvalues, -⟩ := Option.map_eq_some_iff.mp h
  have hplain := closeObject_plains d (hexDigits_plain hvalues) cs
  simp only [List.cons_append, List.nil_append] at hplain
  rw [closeObject_escape, hplain, Option.map_map]
  rfl

/-- Behind the quote that opens a string the scanner comes out at the one that closes it. -/
theorem closeObject_string {s : Text} (h : StringText u s) (d : ℕ) (r : Text) :
    closeObject ⟨d + 1, true, false⟩ (u ++ r) = (closeObject ⟨d + 1, false, false⟩ r).map (u ++ ·) := by
  induction h with
  | close => simp [closeObject]
  | pair hhigh hlow hpair hu ih =>
      simp only [List.cons_append]
      rw [closeObject_unicode _ hhigh, closeObject_unicode _ hlow, ih, Option.map_map, Option.map_map]
      rfl
  | unicode hn hx hu ih =>
      simp only [List.cons_append]
      rw [closeObject_unicode _ hn, ih, Option.map_map]
      rfl
  | short hx hu ih =>
      simp only [List.cons_append]
      rw [closeObject_escape, ih, Option.map_map]
      rfl
  | plain hquote hslash hc hu ih =>
      rw [List.cons_append, closeObject_plain _ hslash hquote, ih, Option.map_map]
      rfl

theorem balanced_string {s : Text} (h : StringText u s) : Balanced ('"' :: u) := by
  intro d r
  have hopen : closeObject ⟨d + 1, false, false⟩ ('"' :: (u ++ r)) =
      (closeObject ⟨d + 1, true, false⟩ (u ++ r)).map ('"' :: ·) := by
    simp [closeObject]
  rw [List.cons_append, hopen, closeObject_string h, Option.map_map]
  rfl

/-! ### Scalars -/

/-- The characters that the scanner takes for something. -/
def special : Text := ['\\', '"', '\x7b', '\x7d']

theorem digit_not_special (h : c.isDigit = true) : c ∉ special := by
  have hspecial : ∀ c ∈ special, c.isDigit = false := by simp [special]
  intro hc
  rw [hspecial c hc] at h
  cases h

theorem digits_not_special (hc : c ∈ cs.takeWhile Char.isDigit) : c ∉ special :=
  digit_not_special (JsonText.isDigit_of_mem_takeWhile hc)

theorem space_not_special (h : JsonText.space c = true) : c ∉ special := by
  have hspecial : ∀ c ∈ special, JsonText.space c = false := by simp [special, JsonText.space]
  intro hc
  rw [hspecial c hc] at h
  cases h

theorem balanced_blank (hb : Blank b) : Balanced b :=
  balanced_chars fun _ hc => space_not_special (hb _ hc)

theorem wholePart_not_special (hc : c ∈ JsonText.wholePart cs) : c ∉ special := by
  unfold JsonText.wholePart at hc
  split at hc
  · rw [List.mem_singleton.mp hc]
    decide
  · exact digits_not_special hc

theorem fractionPart_not_special (hc : c ∈ JsonText.fractionPart cs) : c ∉ special := by
  unfold JsonText.fractionPart at hc
  split at hc
  · split at hc
    · cases hc
    · rcases List.mem_cons.mp hc with rfl | hc
      · decide
      · exact digits_not_special hc
  · cases hc

theorem exponentPart_not_special (hc : c ∈ JsonText.exponentPart cs) : c ∉ special := by
  unfold JsonText.exponentPart at hc
  split at hc
  · rename_i e s cs
    split_ifs at hc with he hs hsign
    · cases hc
    · rcases List.mem_cons.mp hc with rfl | hc
      · rcases not_and_or.mp he with he | he <;> rw [not_not.mp he] <;> decide
      · exact digits_not_special hc
    · rcases List.mem_cons.mp hc with rfl | hc
      · rcases not_and_or.mp he with he | he <;> rw [not_not.mp he] <;> decide
      · rcases List.mem_cons.mp hc with rfl | hc
        · rcases hsign.1 with rfl | rfl <;> decide
        · exact digits_not_special hc
    · cases hc
  · cases hc

theorem unsigned_balanced {minus : Bool} (h : JsonText.unsigned ft minus cs = some (v, rest)) :
    ∃ u, cs = u ++ rest ∧ Balanced u := by
  obtain ⟨afterWhole, hwhole⟩ := JsonText.wholePart_prefix cs
  obtain ⟨afterFraction, hfraction⟩ := JsonText.fractionPart_prefix afterWhole
  obtain ⟨afterExponent, hexponent⟩ := JsonText.exponentPart_prefix afterFraction
  have hbalanced : Balanced (JsonText.wholePart cs ++
      (JsonText.fractionPart afterWhole ++ JsonText.exponentPart afterFraction)) :=
    (balanced_chars fun _ => wholePart_not_special).append
      ((balanced_chars fun _ => fractionPart_not_special).append (balanced_chars fun _ => exponentPart_not_special))
  generalize hw : JsonText.wholePart cs = whole at hwhole hbalanced
  generalize hf : JsonText.fractionPart afterWhole = fraction at hfraction hbalanced
  generalize he : JsonText.exponentPart afterFraction = exponent at hexponent hbalanced
  subst hexponent hfraction hwhole
  rw [JsonText.unsigned_parts ft minus hw hf he] at h
  split at h
  · cases h
  · cases h
    exact ⟨_, by simp, hbalanced⟩

theorem readNumber_balanced (h : JsonText.readNumber ft cs = some (v, rest)) : ∃ u, cs = u ++ rest ∧ Balanced u := by
  by_cases hminus : cs.head? = some '-'
  · obtain ⟨cs, rfl⟩ := List.head?_eq_some_iff.mp hminus
    rw [JsonText.readNumber_minus] at h
    obtain ⟨u, rfl, hu⟩ := unsigned_balanced h
    exact ⟨'-' :: u, rfl, (balanced_char (by decide)).append hu⟩
  · rw [JsonText.readNumber_of_ne hminus] at h
    exact unsigned_balanced h

theorem readScalar_balanced (h : JsonText.readScalar ft cs = some (v, rest)) : ∃ u, cs = u ++ rest ∧ Balanced u := by
  obtain ⟨constant, hconstant, hcs, -⟩ | hnumber := JsonText.readScalar_cases h
  · refine ⟨constant.1, hcs, balanced_chars ?_⟩
    simp only [JsonText.constants, List.mem_cons, List.not_mem_nil, or_false] at hconstant
    rcases hconstant with rfl | rfl | rfl | rfl | rfl | rfl <;> simp
  · exact readNumber_balanced hnumber

/-! ### Arrays and objects -/

/-- What the readers read at one depth is balanced; of an object, what is between its braces. -/
structure Scans (ft : Yaml.FloatText) (n : ℕ) : Prop where
  value : ∀ {cs v rest}, JsonText.readValue ft n cs = some (v, rest) → ∃ u, cs = u ++ rest ∧ Balanced u
  elements : ∀ {cs xs rest}, JsonText.readElements ft n cs = some (xs, rest) → ∃ u, cs = u ++ rest ∧ Balanced u
  members : ∀ {items cs items' rest}, JsonText.readMembers ft n items cs = some (items', rest) →
    ∃ u, cs = u ++ '\x7d' :: rest ∧ Balanced u

theorem Scans.seq (ih : Scans ft n) (h : JsonText.readValue ft (n + 1) ('[' :: cs) = some (v, rest)) :
    ∃ u, '[' :: cs = u ++ rest ∧ Balanced u := by
  obtain ⟨b, hb, hcs, -⟩ := JsonText.exists_blank cs
  have hopen : Balanced ['['] := balanced_char (by decide)
  by_cases hclose : (JsonText.skipSpace cs).head? = some ']'
  · obtain ⟨t, ht⟩ := List.head?_eq_some_iff.mp hclose
    rw [JsonText.readValue_seq_nil ht] at h
    cases h
    refine ⟨['['] ++ (b ++ [']']), ?_, hopen.append ((balanced_blank hb).append (balanced_char (by decide)))⟩
    rw [hcs, ht]
    simp
  · rw [JsonText.readValue_seq hclose] at h
    obtain ⟨⟨xs, rest'⟩, hread, heq⟩ := Option.map_eq_some_iff.mp h
    cases heq
    obtain ⟨u, hu, hbalanced⟩ := ih.elements hread
    refine ⟨['['] ++ (b ++ u), ?_, hopen.append ((balanced_blank hb).append hbalanced)⟩
    rw [hcs, hu]
    simp

theorem Scans.map (ih : Scans ft n) (h : JsonText.readValue ft (n + 1) ('\x7b' :: cs) = some (v, rest)) :
    ∃ u, cs = u ++ '\x7d' :: rest ∧ Balanced u := by
  obtain ⟨b, hb, hcs, -⟩ := JsonText.exists_blank cs
  by_cases hclose : (JsonText.skipSpace cs).head? = some '\x7d'
  · obtain ⟨t, ht⟩ := List.head?_eq_some_iff.mp hclose
    rw [JsonText.readValue_map_nil ht] at h
    cases h
    exact ⟨b, by rw [hcs, ht], balanced_blank hb⟩
  · rw [JsonText.readValue_map hclose] at h
    obtain ⟨⟨items, rest'⟩, hread, heq⟩ := Option.map_eq_some_iff.mp h
    cases heq
    obtain ⟨u, hu, hbalanced⟩ := ih.members hread
    refine ⟨b ++ u, ?_, (balanced_blank hb).append hbalanced⟩
    rw [hcs, hu]
    simp

theorem Scans.succ_value (ih : Scans ft n) (h : JsonText.readValue ft (n + 1) cs = some (v, rest)) :
    ∃ u, cs = u ++ rest ∧ Balanced u := by
  by_cases hopens : ∃ c t, cs = c :: t ∧ c ∈ ['"', '[', '\x7b']
  · obtain ⟨c, t, rfl, hc⟩ := hopens
    simp only [List.mem_cons, List.not_mem_nil, or_false] at hc
    obtain rfl | rfl | rfl := hc
    · rw [JsonText.readValue] at h
      obtain ⟨⟨s, rest'⟩, hread, heq⟩ := Option.map_eq_some_iff.mp h
      cases heq
      obtain ⟨u, rfl, hu⟩ := JsonText.exists_stringText hread
      exact ⟨'"' :: u, rfl, balanced_string hu⟩
    · exact ih.seq h
    · obtain ⟨u, rfl, hu⟩ := ih.map h
      exact ⟨'\x7b' :: (u ++ ['\x7d']), by simp, hu.braces⟩
  · have hscalar : JsonText.readScalar ft cs = some (v, rest) := by
      cases cs with
      | nil => rwa [JsonText.readValue] at h <;> simp
      | cons c t => rwa [JsonText.readValue_scalar fun hc => hopens ⟨c, t, rfl, hc⟩] at h
    exact readScalar_balanced hscalar

theorem Scans.succ_elements (ih : Scans ft n) {xs : List Yaml}
    (h : JsonText.readElements ft (n + 1) cs = some (xs, rest)) : ∃ u, cs = u ++ rest ∧ Balanced u := by
  obtain ⟨b₀, hb₀, hcs, -⟩ := JsonText.exists_blank cs
  obtain ⟨x, b, c, r, hvalue, hb, hcases⟩ := JsonText.readElements_cases h
  obtain ⟨u, hu, hbalanced⟩ := ih.value hvalue
  rw [hu] at hcs
  have hfirst : Balanced (b₀ ++ (u ++ b)) := (balanced_blank hb₀).append (hbalanced.append (balanced_blank hb))
  obtain ⟨rfl, rfl, rfl⟩ | ⟨rfl, ys, hread, rfl⟩ := hcases
  · exact ⟨b₀ ++ (u ++ b) ++ [']'], by rw [hcs]; simp, hfirst.append (balanced_char (by decide))⟩
  · obtain ⟨w, rfl, hw⟩ := ih.elements hread
    refine ⟨b₀ ++ (u ++ b) ++ ([','] ++ w), ?_, hfirst.append ((balanced_char (by decide)).append hw)⟩
    rw [hcs]
    simp

theorem Scans.succ_members (ih : Scans ft n) {items' : List (Yaml × Yaml)}
    (h : JsonText.readMembers ft (n + 1) items cs = some (items', rest)) :
    ∃ u, cs = u ++ '\x7d' :: rest ∧ Balanced u := by
  obtain ⟨b₀, hb₀, hcs, -⟩ := JsonText.exists_blank cs
  obtain ⟨cs₁, key, b₁, r₁, value, b₃, c, r, hquote, hkey, hb₁, hvalue, hb₃, hcases⟩ := JsonText.readMembers_cases h
  obtain ⟨t, rfl, ht⟩ := JsonText.exists_stringText hkey
  obtain ⟨b₂, hb₂, hr₁, -⟩ := JsonText.exists_blank r₁
  obtain ⟨u, hu, hbalanced⟩ := ih.value hvalue
  rw [hu] at hr₁
  rw [hquote, hr₁] at hcs
  have hcolon : Balanced [':'] := balanced_char (by decide)
  have hmember : Balanced (b₀ ++ ('"' :: t ++ (b₁ ++ ([':'] ++ (b₂ ++ (u ++ b₃)))))) :=
    (balanced_blank hb₀).append ((balanced_string ht).append ((balanced_blank hb₁).append (hcolon.append
      ((balanced_blank hb₂).append (hbalanced.append (balanced_blank hb₃))))))
  obtain ⟨rfl, rfl, rfl⟩ | ⟨rfl, hread⟩ := hcases
  · exact ⟨_, by rw [hcs]; simp, hmember⟩
  · obtain ⟨w, rfl, hw⟩ := ih.members hread
    refine ⟨b₀ ++ ('"' :: t ++ (b₁ ++ ([':'] ++ (b₂ ++ (u ++ b₃))))) ++ ([','] ++ w), ?_,
      hmember.append ((balanced_char (by decide)).append hw)⟩
    rw [hcs]
    simp

theorem readers_scan (n : ℕ) : Scans ft n := by
  induction n with
  | zero => exact ⟨by simp [JsonText.readValue], by simp [JsonText.readElements], by simp [JsonText.readMembers]⟩
  | succ n ih => exact ⟨ih.succ_value, ih.succ_elements, ih.succ_members⟩

/-- **The scanner ends an object where the reader of JSON does.** -/
theorem closeObject_objectText (h : ObjectText ft u items) (r : Text) :
    closeObject ⟨0, false, false⟩ (u ++ r) = some u := by
  obtain ⟨t, rfl⟩ := h.opens
  have hread := h.read (t.length + 1) [] (by simp)
  rw [List.append_nil] at hread
  obtain ⟨w, rfl, hw⟩ := (readers_scan t.length).map hread
  rw [List.cons_append, List.append_assoc]
  exact hw.closeObject r

/-! ## What is extracted -/

theorem extractFrom_eq (skip : ℕ) (cs : Text) : extractFrom skip cs = extractJsonObjects (cs.drop skip) := by
  induction cs generalizing skip with
  | nil => simp [extractFrom, extractJsonObjects]
  | cons c cs ih =>
      cases skip with
      | zero => rfl
      | succ skip => exact ih skip

theorem extractJsonObjects_cons (hc : c ≠ '\x7b') : extractJsonObjects (c :: cs) = extractJsonObjects cs := by
  rw [extractJsonObjects, extractFrom, if_pos hc, extractJsonObjects]

theorem extractJsonObjects_prose (hp : '\x7b' ∉ p) : extractJsonObjects (p ++ cs) = extractJsonObjects cs := by
  induction p with
  | nil => rfl
  | cons c p ih =>
      have hc : c ≠ '\x7b' := fun h => hp (h ▸ List.mem_cons_self)
      rw [List.cons_append, extractJsonObjects_cons hc, ih fun h => hp (List.mem_cons_of_mem c h)]

theorem extractJsonObjects_none (hp : '\x7b' ∉ p) : extractJsonObjects p = [] := by
  have h : extractJsonObjects (p ++ []) = extractJsonObjects [] := extractJsonObjects_prose hp
  rw [List.append_nil] at h
  rw [h]
  rfl

theorem extractJsonObjects_object (h : ObjectText ft u items) (r : Text) :
    extractJsonObjects (u ++ r) = u :: extractJsonObjects r := by
  have hclose := closeObject_objectText h r
  obtain ⟨t, rfl⟩ := h.opens
  rw [List.cons_append] at hclose ⊢
  rw [extractJsonObjects, extractFrom, if_neg (by simp), hclose]
  simp [extractFrom_eq]

theorem closeObject_blanks {e : Text} (he : ∀ c ∈ e, pyIsSpace c = true) (s : Scanner) :
    closeObject s (cs ++ e) = closeObject s cs := by
  induction cs generalizing s with
  | nil =>
      induction e generalizing s with
      | nil => rfl
      | cons c e ih =>
          have hmore := ih fun x hx => he x (List.mem_cons_of_mem c hx)
          simp only [List.nil_append] at hmore ⊢
          have hclose : c ≠ '\x7d' := by
            rintro rfl
            cases he _ List.mem_cons_self
          simp [closeObject, hmore, hclose]
  | cons c cs ih => simp only [List.cons_append, closeObject, ih]

theorem extractFrom_blanks {e : Text} (he : ∀ c ∈ e, pyIsSpace c = true) (skip : ℕ) :
    extractFrom skip (cs ++ e) = extractFrom skip cs := by
  have hnone : '\x7b' ∉ e := fun h => by cases he _ h
  induction cs generalizing skip with
  | nil =>
      rw [List.nil_append, extractFrom_eq, extractJsonObjects_none fun h => hnone (List.mem_of_mem_drop h), extractFrom]
  | cons c cs ih =>
      cases skip with
      | zero =>
          rw [List.cons_append, extractFrom, extractFrom, ← List.cons_append, closeObject_blanks he]
          simp only [ih]
      | succ skip => exact ih skip

theorem brace_not_blank {e : Text} (he : ∀ c ∈ e, pyIsSpace c = true) : '\x7b' ∉ e := by
  intro h
  cases he _ h

theorem extractJsonObjects_strip (text : Text) : extractJsonObjects (pyStrip text) = extractJsonObjects text := by
  obtain ⟨b, e, htext, hb, he⟩ := exists_strip text
  conv_rhs => rw [htext, extractJsonObjects_prose (brace_not_blank hb), extractJsonObjects, extractFrom_blanks he]
  rfl

/-! ## Fences -/

theorem fencedFrom_eq (skip : ℕ) (cs : Text) : fencedFrom skip cs = fencedFrom 0 (cs.drop skip) := by
  induction cs generalizing skip with
  | nil => simp [fencedFrom]
  | cons c cs ih =>
      cases skip with
      | zero => rfl
      | succ skip => exact ih skip

theorem removeFrom_eq (old : Text) (skip : ℕ) (cs : Text) : removeFrom old skip cs = removeFrom old 0 (cs.drop skip) := by
  induction cs generalizing skip with
  | nil => simp [removeFrom]
  | cons c cs ih =>
      cases skip with
      | zero => rfl
      | succ skip => exact ih skip

theorem removeFrom_self (hu : u ≠ []) : removeFrom u 0 u = [] := by
  obtain ⟨c, t, rfl⟩ := List.exists_cons_of_ne_nil hu
  rw [removeFrom, if_pos (by simp), removeFrom_eq]
  simp [removeFrom]

theorem removeFrom_subset (old : Text) (skip : ℕ) (cs : Text) : removeFrom old skip cs ⊆ cs := by
  induction cs generalizing skip with
  | nil => simp [removeFrom]
  | cons c cs ih =>
      cases skip with
      | succ skip => exact List.subset_cons_of_subset c (ih skip)
      | zero =>
          rw [removeFrom]
          split
          · exact List.subset_cons_of_subset c (ih _)
          · exact List.cons_subset_cons c (ih 0)

theorem matchFence_eq_none (h : ¬fence <:+: cs) : matchFence cs = none := by
  rw [matchFence, if_neg]
  exact fun hprefix => h (List.isPrefixOf_iff_prefix.mp hprefix).isInfix

theorem fencedFrom_eq_nil (h : ¬fence <:+: cs) : fencedFrom 0 cs = [] := by
  induction cs with
  | nil => rfl
  | cons c cs ih =>
      rw [fencedFrom, matchFence_eq_none h]
      exact ih fun hwithin => h (hwithin.trans (List.suffix_cons c cs).isInfix)

theorem tag_cases (cs : Text) : tag cs = cs ∨ ∃ q, cs = q ++ tag cs ∧ ∀ c ∈ q, c ≠ '\x60' ∧ c ≠ '\x7b' := by
  unfold tag
  split
  · rename_i j s o n cs
    split_ifs with h
    · refine Or.inr ⟨[j, s, o, n], rfl, ?_⟩
      obtain ⟨hj, hs, ho, hn⟩ := h
      simp only [List.mem_cons, List.not_mem_nil, or_false] at hj hs ho hn ⊢
      rintro c (rfl | rfl | rfl | rfl)
      · rcases hj with rfl | rfl <;> decide
      · rcases hs with rfl | rfl | rfl <;> decide
      · rcases ho with rfl | rfl <;> decide
      · rcases hn with rfl | rfl <;> decide
    · exact Or.inl rfl
  · exact Or.inl rfl

/-- What comes before the body of a block: neither backticks nor braces. -/
theorem exists_before_body (cs : Text) : ∃ q, cs = q ++ (tag cs).dropWhile pyIsSpace ∧
    ∀ c ∈ q, c ≠ '\x60' ∧ c ≠ '\x7b' := by
  have hblanks : ∀ c ∈ (tag cs).takeWhile pyIsSpace, c ≠ '\x60' ∧ c ≠ '\x7b' := by
    intro c hc
    have hspace : pyIsSpace c = true := List.mem_takeWhile_imp hc
    constructor <;> rintro rfl <;> cases hspace
  have hbody := List.takeWhile_append_dropWhile (p := pyIsSpace) (l := tag cs)
  obtain htag | ⟨q, hq, hplain⟩ := tag_cases cs
  · refine ⟨(tag cs).takeWhile pyIsSpace, ?_, hblanks⟩
    rw [hbody, htag]
  · refine ⟨q ++ (tag cs).takeWhile pyIsSpace, ?_, ?_⟩
    · rw [List.append_assoc, hbody]
      exact hq
    · intro c hc
      rcases List.mem_append.mp hc with hc | hc
      · exact hplain c hc
      · exact hblanks c hc

theorem textBefore_subset {pat group : Text} (h : textBefore pat cs = some group) : group ⊆ cs := by
  induction cs generalizing group with
  | nil =>
      rw [textBefore] at h
      split at h
      · cases h
        simp
      · cases h
  | cons c cs ih =>
      rw [textBefore] at h
      split at h
      · cases h
        simp
      · obtain ⟨group', hgroup, rfl⟩ := Option.map_eq_some_iff.mp h
        exact List.cons_subset_cons c (ih hgroup)

theorem matchFence_subset {length : ℕ} {group : Text} (h : matchFence cs = some (length, group)) : group ⊆ cs := by
  rw [matchFence] at h
  split at h
  · obtain ⟨group', hgroup, heq⟩ := Option.map_eq_some_iff.mp h
    cases heq
    obtain ⟨q, hq, -⟩ := exists_before_body (cs.drop 3)
    intro c hc
    have hmem : c ∈ cs.drop 3 := by
      rw [hq]
      exact List.mem_append_right q (textBefore_subset hgroup hc)
    exact List.mem_of_mem_drop hmem
  · cases h

theorem fencedFrom_subset {block : Text × Text} {skip : ℕ} (h : block ∈ fencedFrom skip cs) : block.2 ⊆ cs := by
  induction cs generalizing skip with
  | nil => cases skip <;> cases h
  | cons c cs ih =>
      cases skip with
      | succ skip => exact List.subset_cons_of_subset c (ih h)
      | zero =>
          rw [fencedFrom] at h
          split at h
          · rename_i length group hmatch
            rcases List.mem_cons.mp h with rfl | h
            · exact matchFence_subset hmatch
            · exact List.subset_cons_of_subset c (ih h)
          · exact List.subset_cons_of_subset c (ih h)

/-- A text without a brace has no candidates, fenced or not. -/
theorem candidates_prose (hp : '\x7b' ∉ p) : candidates p = [] := by
  have hremaining : ∀ (blocks : List (Text × Text)) (text : Text), '\x7b' ∉ text →
      '\x7b' ∉ blocks.foldl (fun remaining block => removeFrom block.1 0 remaining) text := by
    intro blocks
    induction blocks with
    | nil => exact fun _ htext => htext
    | cons block blocks ih => exact fun text htext => ih _ fun h => htext (removeFrom_subset block.1 0 text h)
  have hblocks : (fencedFrom 0 p).flatMap (fun block => extractJsonObjects block.2) = [] := by
    rw [List.flatMap_eq_nil_iff]
    exact fun block hblock => extractJsonObjects_none fun h => hp (fencedFrom_subset hblock h)
  rw [candidates, hblocks, extractJsonObjects_none (hremaining _ p hp), List.append_nil]

theorem candidates_unfenced (h : ¬fence <:+: p) : candidates p = extractJsonObjects p := by
  rw [candidates, fencedFrom_eq_nil h]
  rfl

/-- The first fence is the one that closes the block. -/
theorem textBefore_fence (ht : ¬fence <:+: t) (hlast : t.getLast? ≠ some '\x60') :
    textBefore fence (t ++ fence) = some t := by
  induction t with
  | nil => rfl
  | cons c t ih =>
      have hprefix : ¬fence <+: c :: (t ++ fence) := by
        intro h
        match t, ht, hlast, h with
        | [], _, hlast, h =>
            rw [fence, List.cons_prefix_cons] at h
            exact hlast (by rw [← h.1]; rfl)
        | [d], _, hlast, h =>
            rw [fence, List.cons_prefix_cons, List.cons_append, List.cons_prefix_cons] at h
            exact hlast (by rw [← h.2.1]; rfl)
        | d :: e :: t, ht, _, h =>
            rw [fence, List.cons_prefix_cons, List.cons_append, List.cons_prefix_cons, List.cons_append,
              List.cons_prefix_cons] at h
            obtain ⟨rfl, rfl, rfl, -⟩ := h
            exact ht ⟨[], t, rfl⟩
      have hlast' : t.getLast? ≠ some '\x60' := by
        cases t with
        | nil => simp
        | cons d t => simpa [List.getLast?_cons_cons] using hlast
      rw [List.cons_append, textBefore, if_neg fun h => hprefix (List.isPrefixOf_iff_prefix.mp h),
        ih (fun h => ht (h.trans (List.suffix_cons c t).isInfix)) hlast']
      rfl

/-- A block that is the whole text has the candidates of its content. -/
theorem candidates_block (ht : ¬fence <:+: t) (hlast : t.getLast? ≠ some '\x60') :
    candidates (fence ++ (t ++ fence)) = extractJsonObjects t := by
  obtain ⟨q, hq, hplain⟩ := exists_before_body (t ++ fence)
  obtain ⟨t', rfl, hbody⟩ : ∃ t', t = q ++ t' ∧ (tag (t ++ fence)).dropWhile pyIsSpace = t' ++ fence := by
    rcases List.append_eq_append_iff.mp hq with ⟨z, rfl, hz⟩ | ⟨t', ht', hz⟩
    · cases z with
      | nil => exact ⟨[], by simp, by simpa using hz.symm⟩
      | cons c z =>
          have hc : c ∈ fence := by
            rw [hz]
            exact List.mem_cons_self
          have hbacktick : c = '\x60' := by simpa [fence] using hc
          exact absurd hbacktick (hplain c (by simp)).1
    · exact ⟨t', ht', hz⟩
  have hinner : ¬fence <:+: t' := fun h => ht (h.trans (List.suffix_append q t').isInfix)
  have hend : t'.getLast? ≠ some '\x60' := by
    intro h
    exact hlast (by rw [List.getLast?_append, h]; rfl)
  have hmatch : matchFence (fence ++ (q ++ t' ++ fence)) =
      some ((fence ++ (q ++ t' ++ fence)).length, t') := by
    rw [matchFence, if_pos (by simp)]
    have hdrop : (fence ++ (q ++ t' ++ fence)).drop 3 = q ++ t' ++ fence := rfl
    have hfence : fence.length = 3 := rfl
    simp only [hdrop, hbody, textBefore_fence hinner hend, Option.map_some, Option.some.injEq, Prod.mk.injEq,
      and_true]
    simp only [List.length_append, hfence]
    omega
  have hblocks : fencedFrom 0 (fence ++ (q ++ t' ++ fence)) = [(fence ++ (q ++ t' ++ fence), t')] := by
    have hcons : fence ++ (q ++ t' ++ fence) = '\x60' :: (['\x60', '\x60'] ++ (q ++ t' ++ fence)) := rfl
    rw [hcons] at hmatch ⊢
    simp only [fencedFrom, hmatch]
    rw [fencedFrom_eq, List.take_length, List.length_cons, Nat.add_sub_cancel, List.drop_length, fencedFrom]
  have hplain' : '\x7b' ∉ q := fun h => (hplain _ h).2 rfl
  have hne : fence ++ (q ++ t' ++ fence) ≠ [] := by simp [fence]
  have hempty : extractJsonObjects [] = [] := rfl
  simp only [candidates, hblocks, List.flatMap_cons, List.flatMap_nil, List.foldl_cons, List.foldl_nil,
    removeFrom_self hne, extractJsonObjects_prose hplain', hempty, List.append_nil]

/-! ## Replies -/

/-- A tool call as a model writes it: the text of an object with a tool. -/
structure CallText (ft : Yaml.FloatText) where
  text : Text
  items : List (Yaml × Yaml)
  tool : Yaml
  object : ObjectText ft text items
  named : Yaml.lookup "tool".toList items = some tool

def CallText.call (c : CallText ft) : Yaml × Yaml := (c.tool, (Yaml.lookup "arguments".toList c.items).getD (.map []))

theorem CallText.toolOf (c : CallText ft) : toolOf ft c.text = some c.call := by
  rw [Vibe.toolOf, c.object.loads]
  simp only [c.named, Option.map_some, call]

/-- Every text that is read as an object with a tool is such a call, between blanks. -/
theorem exists_callText {tool : Yaml} (h : JsonText.loads ft cs = some (.map items))
    (htool : Yaml.lookup "tool".toList items = some tool) :
    ∃ b e, ∃ call : CallText ft, cs = b ++ (call.text ++ e) ∧ Blank b ∧ Blank e ∧ call.items = items := by
  obtain ⟨b, u, e, hcs, hb, he, hu⟩ := JsonText.exists_objectText h
  exact ⟨b, e, ⟨u, items, tool, hu, htool⟩, hcs, hb, he, rfl⟩

/-- Tool calls behind prose without a brace, and the prose behind the last. -/
def callsText (pieces : List (Text × CallText ft)) (last : Text) : Text :=
  pieces.flatMap (fun piece => piece.1 ++ piece.2.text) ++ last

/-- Tool calls on one line. -/
structure CallLine (ft : Yaml.FloatText) where
  pieces : List (Text × CallText ft)
  last : Text
  nonempty : pieces ≠ []
  prose : ∀ piece ∈ pieces, '\x7b' ∉ piece.1
  lastProse : '\x7b' ∉ last
  oneLine : ∀ c ∈ callsText pieces last, isLineBreak c = false
  unfenced : ¬fence <:+: callsText pieces last

inductive ReplyLine (ft : Yaml.FloatText)
  | prose (text : Text) (plain : '\x7b' ∉ text) (oneLine : ∀ c ∈ text, isLineBreak c = false)
  | bare (line : CallLine ft)
  /-- The calls in a fenced block. -/
  | block (line : CallLine ft) (closed : (callsText line.pieces line.last).getLast? ≠ some '\x60')

def CallLine.calls (line : CallLine ft) : List (Yaml × Yaml) := line.pieces.map fun piece => piece.2.call

namespace ReplyLine

def text : ReplyLine ft → Text
  | .prose text _ _ => text
  | .bare line => callsText line.pieces line.last
  | .block line _ => fence ++ (callsText line.pieces line.last ++ fence)

def calls : ReplyLine ft → List (Yaml × Yaml)
  | .prose _ _ _ => []
  | .bare line => line.calls
  | .block line _ => line.calls

def isProse : ReplyLine ft → Bool
  | .prose _ _ _ => true
  | _ => false

end ReplyLine

/-- **Every call on a line is extracted**, in the order of the line. -/
theorem extractJsonObjects_callsText {pieces : List (Text × CallText ft)} {last : Text}
    (hprose : ∀ piece ∈ pieces, '\x7b' ∉ piece.1) (hlast : '\x7b' ∉ last) :
    extractJsonObjects (callsText pieces last) = pieces.map fun piece => piece.2.text := by
  induction pieces with
  | nil => exact extractJsonObjects_none hlast
  | cons piece pieces ih =>
      have htext : callsText (piece :: pieces) last = piece.1 ++ (piece.2.text ++ callsText pieces last) := by
        simp [callsText]
      rw [htext, extractJsonObjects_prose (hprose piece List.mem_cons_self),
        extractJsonObjects_object piece.2.object, ih fun p hp => hprose p (List.mem_cons_of_mem piece hp), List.map_cons]

namespace CallLine

variable (line : CallLine ft)

theorem mem_brace : '\x7b' ∈ callsText line.pieces line.last := by
  obtain ⟨piece, pieces, hpieces⟩ := List.exists_cons_of_ne_nil line.nonempty
  obtain ⟨t, ht⟩ := piece.2.object.opens
  rw [hpieces, callsText, List.flatMap_cons, ht]
  simp

theorem filterMap_toolOf : (line.pieces.map fun piece => piece.2.text).filterMap (toolOf ft) = line.calls := by
  rw [List.filterMap_map, calls]
  induction line.pieces with
  | nil => rfl
  | cons piece pieces ih => rw [List.filterMap_cons, Function.comp_apply, piece.2.toolOf, ih, List.map_cons]

theorem calls_ne_nil : line.calls ≠ [] := by
  simpa [calls] using line.nonempty

end CallLine

theorem lineCalls_eq {text : Text} {tools : List (Yaml × Yaml)} (hc : c ∈ text) (hblank : pyIsSpace c = false)
    (h : (candidates (pyStrip text)).filterMap (toolOf ft) = tools) : lineCalls ft text = numbered tools := by
  rw [lineCalls, if_neg (pyStrip_ne_nil hc hblank), parseToolJson, h]

/-- The calls of a line are those its author put on it. -/
theorem lineCalls_text (l : ReplyLine ft) : lineCalls ft l.text = numbered l.calls := by
  cases l with
  | prose text plain oneLine =>
      have hstripped : '\x7b' ∉ pyStrip text := fun h => plain ((infix_of_pyStrip text).subset h)
      rw [ReplyLine.text, lineCalls]
      by_cases hempty : pyStrip text = []
      · rw [if_pos hempty]
        rfl
      · rw [if_neg hempty, parseToolJson, candidates_prose hstripped]
        rfl
  | bare line =>
      refine lineCalls_eq line.mem_brace rfl ?_
      have hunfenced : ¬fence <:+: pyStrip (callsText line.pieces line.last) :=
        fun h => line.unfenced (h.trans (infix_of_pyStrip _))
      rw [ReplyLine.text, candidates_unfenced hunfenced, extractJsonObjects_strip,
        extractJsonObjects_callsText line.prose line.lastProse]
      exact line.filterMap_toolOf
  | block line closed =>
      have hstrip : pyStrip (fence ++ (callsText line.pieces line.last ++ fence)) =
          fence ++ (callsText line.pieces line.last ++ fence) := by
        have h := pyStrip_append_right (s := fence ++ (callsText line.pieces line.last ++ fence)) (e := [])
          (by simp [fence]; decide) (by simp [fence, List.getLast?_append, List.getLast?_cons]; decide) (by simp)
        rwa [List.append_nil] at h
      refine lineCalls_eq (c := '\x7b') ?_ rfl ?_
      · exact List.mem_append_right _ (List.mem_append_left _ line.mem_brace)
      · rw [ReplyLine.text, hstrip, candidates_block line.unfenced closed,
          extractJsonObjects_callsText line.prose line.lastProse]
        exact line.filterMap_toolOf

theorem ReplyLine.oneLine (l : ReplyLine ft) : ∀ c ∈ l.text, isLineBreak c = false := by
  cases l with
  | prose text plain oneLine => exact oneLine
  | bare line => exact line.oneLine
  | block line closed =>
      have hfence : ∀ c ∈ fence, isLineBreak c = false := by simp [fence, isLineBreak]
      intro c hc
      rcases List.mem_append.mp hc with hc | hc
      · exact hfence c hc
      · rcases List.mem_append.mp hc with hc | hc
        · exact line.oneLine c hc
        · exact hfence c hc

theorem numbered_isEmpty (tools : List (Yaml × Yaml)) : (numbered tools).isEmpty = tools.isEmpty := by
  cases tools <;> simp [numbered]

theorem calls_isEmpty (l : ReplyLine ft) : l.calls.isEmpty = l.isProse := by
  cases l with
  | prose text plain oneLine => rfl
  | bare line => simpa [ReplyLine.calls, ReplyLine.isProse] using line.calls_ne_nil
  | block line closed => simpa [ReplyLine.calls, ReplyLine.isProse] using line.calls_ne_nil

/-- **A reply is read as it was written:** the calls of every line in order, bare, in prose or fenced, and the prose as
the content. -/
theorem parseResponse_reply (reply : List (ReplyLine ft)) :
    parseResponse ft (reply.flatMap fun line => line.text ++ ['\n']) =
      (contentOf ((reply.filter ReplyLine.isProse).map ReplyLine.text),
        reply.flatMap fun line => numbered line.calls) := by
  have hlines : splitlines (reply.flatMap fun line => line.text ++ ['\n']) = reply.map ReplyLine.text := by
    have hone : ∀ text ∈ reply.map ReplyLine.text, ∀ c ∈ text, isLineBreak c = false := by
      intro text htext
      obtain ⟨line, -, rfl⟩ := List.mem_map.mp htext
      exact line.oneLine
    rw [← splitlines_lines hone, List.flatMap_map]
  have hprose : (fun line => (lineCalls ft line).isEmpty) ∘ ReplyLine.text =
      (ReplyLine.isProse : ReplyLine ft → Bool) := by
    funext line
    rw [Function.comp_apply, lineCalls_text, numbered_isEmpty, calls_isEmpty]
  have hcalls : (fun line => lineCalls ft (ReplyLine.text line)) = fun line => numbered line.calls :=
    funext lineCalls_text
  rw [parseResponse, hlines, List.filter_map, hprose, List.flatMap_map, hcalls]

/-! ## Numbers of the calls -/

theorem ids_numbered (tools : List (Yaml × Yaml)) :
    (numbered tools).map ToolCall.id = (List.range tools.length).map fun i => "prompt_" ++ toString i := by
  apply List.ext_getElem
  · simp [numbered]
  · simp [numbered]

theorem prompt_injective {i j : ℕ} (h : "prompt_" ++ toString i = "prompt_" ++ toString j) : i = j := by
  have hlist := congrArg String.toList h
  rw [String.toList_append, String.toList_append, List.append_cancel_left_eq, Nat.toString_eq_ofList_toDigits,
    Nat.toString_eq_ofList_toDigits, String.toList_ofList, String.toList_ofList] at hlist
  have hi : Nat.ofDigitChars 10 (Nat.toDigits 10 i) 0 = i := Nat.ofDigitChars_ten_toDigits
  rw [← hi, hlist, Nat.ofDigitChars_ten_toDigits]

theorem ids_nodup (tools : List (Yaml × Yaml)) : ((numbered tools).map ToolCall.id).Nodup := by
  rw [ids_numbered]
  exact (List.nodup_range).map fun _ _ => prompt_injective

/-- Every line with calls has a call of the first number. -/
theorem first_mem_ids {tools : List (Yaml × Yaml)} (h : tools ≠ []) :
    "prompt_" ++ toString 0 ∈ (numbered tools).map ToolCall.id := by
  rw [ids_numbered]
  exact List.mem_map_of_mem (List.mem_range.mpr (List.length_pos_of_ne_nil h))

theorem exists_numbered (ft : Yaml.FloatText) (line : Text) : ∃ tools, lineCalls ft line = numbered tools := by
  rw [lineCalls]
  by_cases hempty : pyStrip line = []
  · exact ⟨[], by rw [if_pos hempty]; rfl⟩
  · exact ⟨_, by rw [if_neg hempty]; rfl⟩

theorem first_mem_lineCalls {line : Text} (h : (!(lineCalls ft line).isEmpty) = true) :
    "prompt_" ++ toString 0 ∈ (lineCalls ft line).map ToolCall.id := by
  obtain ⟨tools, htools⟩ := exists_numbered ft line
  rw [htools, numbered_isEmpty] at h
  rw [htools]
  exact first_mem_ids (by simpa using h)

/-- The lines without calls add nothing. -/
theorem flatMap_lineCalls (lines : List Text) : lines.flatMap (lineCalls ft) =
    (lines.filter fun line => !(lineCalls ft line).isEmpty).flatMap (lineCalls ft) := by
  induction lines with
  | nil => rfl
  | cons line lines ih =>
      rw [List.flatMap_cons, ih, List.filter_cons]
      cases hline : lineCalls ft line with
      | nil => rw [if_neg (by simp), List.nil_append]
      | cons call calls => rw [if_pos (by simp), List.flatMap_cons, hline]

/-- **The ids of the calls tell them apart** exactly when no second line has calls: every line counts from zero. -/
theorem ids_distinct_iff (ft : Yaml.FloatText) (text : Text) : ((parseResponse ft text).2.map ToolCall.id).Nodup ↔
    ((splitlines text).filter fun line => !(lineCalls ft line).isEmpty).length ≤ 1 := by
  have hmem : ∀ line ∈ (splitlines text).filter fun line => !(lineCalls ft line).isEmpty,
      "prompt_" ++ toString 0 ∈ (lineCalls ft line).map ToolCall.id :=
    fun line hline => first_mem_lineCalls (List.mem_filter.mp hline).2
  simp only [parseResponse, flatMap_lineCalls (splitlines text)]
  generalize (splitlines text).filter (fun line => !(lineCalls ft line).isEmpty) = lines at hmem
  cases lines with
  | nil => simp
  | cons line lines =>
      cases lines with
      | nil =>
          obtain ⟨tools, htools⟩ := exists_numbered ft line
          simp only [List.flatMap_cons, List.flatMap_nil, List.append_nil, htools, ids_nodup, List.length_singleton,
            le_refl]
      | cons line' lines =>
          -- Both lines have a call of the first number.
          constructor
          · intro hnodup
            rw [List.flatMap_cons, List.map_append, List.nodup_append] at hnodup
            refine absurd rfl (hnodup.2.2 _ (hmem line (by simp)) ("prompt_" ++ toString 0) ?_)
            rw [List.flatMap_cons, List.map_append]
            exact List.mem_append_left _ (hmem line' (by simp))
          · intro hlength
            simp at hlength

end CryptoAggHarmonic.Vibe
