import CryptoAggHarmonic.LoopTools.Durable
import Mathlib.Tactic

/-!
# Lemmas on durable facts

The document as a list of lines: what a scan makes of it, and where the next entry goes.
-/

namespace CryptoAggHarmonic.LoopTools

open PyOs

variable {key line : Text} {seen : Bool} {xs : List (Text × Bool)} {t : Template} {facts : List Fact} {f : Fact}
  {u : ShortUuid} {p : Promotion} {calls : List Promotion}

/-! ## Texts -/

theorem join_lines {lines : List Text} (hne : lines ≠ []) :
    ['\n'].intercalate lines ++ ['\n'] = lines.flatMap (· ++ ['\n']) := by
  induction lines with
  | nil => exact absurd rfl hne
  | cons l lines ih =>
      cases lines with
      | nil => simp
      | cons m lines =>
          rw [List.flatMap_cons, ← ih (by simp), List.intercalate_cons_cons]
          simp

theorem infix_of_line {pat a b : Text} (hpat : '\n' ∉ pat) (h : pat <:+: a ++ '\n' :: b) : pat <:+: a ∨ pat <:+: b := by
  obtain ⟨s, r, hsr⟩ := h
  rw [List.append_assoc, List.append_eq_append_iff] at hsr
  obtain ⟨a', rfl, hrest⟩ | ⟨s', rfl, hrest⟩ := hsr
  · rw [List.append_eq_append_iff] at hrest
    obtain ⟨b', rfl, -⟩ | ⟨b', rfl, hb'⟩ := hrest
    · exact Or.inl ⟨s, b', by simp⟩
    · cases b' with
      | nil => exact Or.inl ⟨s, [], by simp⟩
      | cons c b' =>
          obtain rfl : '\n' = c := by simpa using (List.cons.inj hb').1
          simp at hpat
  · cases s' with
    | nil =>
        cases pat with
        | nil => exact Or.inl (List.nil_infix)
        | cons c pat =>
            obtain rfl : '\n' = c := by simpa using (List.cons.inj hrest).1
            simp at hpat
    | cons c s' =>
        obtain ⟨-, rfl⟩ := List.cons.inj hrest
        exact Or.inr ⟨s', r, by simp⟩

/-- A text without a newline that stands in a document stands in a line of it. -/
theorem infix_lines {pat : Text} {lines : List Text} (hne : pat ≠ []) (hpat : '\n' ∉ pat)
    (h : pat <:+: lines.flatMap (· ++ ['\n'])) : ∃ line ∈ lines, pat <:+: line := by
  induction lines with
  | nil => exact absurd (List.infix_nil.mp h) hne
  | cons l lines ih =>
      rw [List.flatMap_cons, List.append_assoc, List.singleton_append] at h
      obtain h | h := infix_of_line hpat h
      · exact ⟨l, List.mem_cons_self, h⟩
      · obtain ⟨line, hmem, hline⟩ := ih h
        exact ⟨line, List.mem_cons_of_mem l hmem, hline⟩

theorem lines_infix {pat : Text} {lines : List Text} (hmem : line ∈ lines) (h : pat <:+: line) :
    pat <:+: lines.flatMap (· ++ ['\n']) := by
  obtain ⟨before, after, rfl⟩ := List.append_of_mem hmem
  refine h.trans ⟨before.flatMap (· ++ ['\n']), ['\n'] ++ after.flatMap (· ++ ['\n']), ?_⟩
  simp

theorem rstrip_paragraph {front : Text} (hfront : ∀ c ∈ front.getLast?, pyIsSpace c = false) :
    (front ++ "\n\n".toList).rdropWhile pyIsSpace = front := by
  change (front ++ ['\n', '\n']).rdropWhile pyIsSpace = front
  have hsplit : front ++ ['\n', '\n'] = (front ++ ['\n']) ++ ['\n'] := by simp
  rw [hsplit, List.rdropWhile_concat_pos _ _ _ rfl, List.rdropWhile_concat_pos _ _ _ rfl]
  rw [List.rdropWhile_eq_self_iff]
  intro hne
  have := hfront _ (List.getLast?_eq_some_getLast hne)
  simp [this]

/-! ## Fields -/

theorem digits_plain :
    ("0123456789abcdef".toList.all fun c => !isLineBreak c && !pyIsSpace c && c != '_' && c != '<') = true := by decide

theorem hex_plain {c : Char} (h : c ∈ u.hex) : isLineBreak c = false ∧ pyIsSpace c = false ∧ c ≠ '_' ∧ c ≠ '<' := by
  simpa [and_assoc] using List.all_eq_true.mp digits_plain c (u.digits c h)

theorem hex_ne_nil (u : ShortUuid) : u.hex ≠ [] := by
  intro h
  have := u.length
  rw [h] at this
  cases this

theorem mem_value {c : Char} (h : c ∈ f.value) : isLineBreak c = false ∧ pyIsSpace c = false ∧ c ≠ '<' := by
  unfold Fact.value at h
  cases hby : f.supersededBy with
  | none =>
      rw [hby] at h
      have hall : (noneText.all fun c => !isLineBreak c && !pyIsSpace c && c != '<') = true := by decide
      simpa [and_assoc] using List.all_eq_true.mp hall c h
  | some u =>
      rw [hby] at h
      obtain ⟨hbreak, hspace, -, hopen⟩ := hex_plain h
      exact ⟨hbreak, hspace, hopen⟩

theorem value_ne_nil : f.value ≠ [] := by
  unfold Fact.value
  cases f.supersededBy with
  | none => exact List.cons_ne_nil _ _
  | some u => exact hex_ne_nil u

/-- A field reads as none exactly where nothing supersedes the fact. -/
theorem isNoneLine_field {value : Text} (hne : value ≠ []) (hplain : ∀ c ∈ value, pyIsSpace c = false) :
    isNoneLine (supersededPrefix ++ value) = noneText.isPrefixOf value := by
  have hstrip : pyStrip (supersededPrefix ++ value) = supersededPrefix ++ value := by
    have hhead : ∀ c ∈ (supersededPrefix ++ value).head?, pyIsSpace c = false := by
      intro c hc
      obtain rfl : '-' = c := Option.some.inj hc
      rfl
    have h := @pyStrip_append_right (supersededPrefix ++ value) [] hhead
      (fun c hc => by
        rw [List.getLast?_append_of_ne_nil _ hne] at hc
        exact hplain c (List.mem_of_getLast? hc))
      (by simp)
    rwa [List.append_nil] at h
  rw [isNoneLine, hstrip, Bool.eq_iff_iff, List.isPrefixOf_iff_prefix, List.isPrefixOf_iff_prefix,
    List.prefix_append_right_inj]

theorem isNoneLine_hex (u : ShortUuid) : isNoneLine (supersededPrefix ++ u.hex) = false := by
  rw [isNoneLine_field (hex_ne_nil u) fun c hc => (hex_plain hc).2.1, Bool.eq_false_iff]
  intro hprefix
  have hmem : '_' ∈ u.hex := (List.isPrefixOf_iff_prefix.mp hprefix).subset (by simp [noneText])
  exact (hex_plain hmem).2.2.1 rfl

theorem isNoneLine_current (h : f.IsCurrent key) : isNoneLine (supersededPrefix ++ f.value) = true := by
  rw [Fact.value, h.2]
  rfl

/-! ## The scan -/

/-- What is to become of a line. -/
def setLine (u : ShortUuid) (x : Text × Bool) : Text := if x.2 then supersededPrefix ++ u.hex else x.1

/-- **The scan** sets the fields it is to set, and no other, exactly where it finds them. -/
theorem scanLines_eq_iff (hxs : ∀ x ∈ xs, x.2 = true → isNoneLine x.1 = true) :
    scanLines key u.hex seen (xs.map Prod.fst) = xs.map (setLine u) ↔ Found key seen xs := by
  induction xs generalizing seen with
  | nil => simp [scanLines, Found]
  | cons x xs ih =>
      obtain ⟨line, target⟩ := x
      have htail : ∀ x ∈ xs, x.2 = true → isNoneLine x.1 = true := fun x hx => hxs x (List.mem_cons_of_mem _ hx)
      rw [List.map_cons, List.map_cons, scanLines, Found]
      cases hline : isNoneLine line with
      | false =>
          have htarget : target = false := by
            rw [Bool.eq_false_iff]
            intro h
            rw [hxs _ List.mem_cons_self h] at hline
            cases hline
          simp [setLine, htarget, ih htail]
      | true =>
          have hne : line ≠ supersededPrefix ++ u.hex := by
            rintro rfl
            rw [isNoneLine_hex] at hline
            cases hline
          cases hseen : seen || names key line with
          | true => cases target <;> simp [setLine, ih htail, hne.symm]
          | false => cases target <;> simp [setLine, ih htail, hne]

/-! ## The document as lines -/

def Fact.marked (key : Text) (f : Fact) : List (Text × Bool) :=
  (splitlines f.promotion.heading).map (·, false) ++
    [(supersededPrefix ++ f.value, decide (f.IsCurrent key)), ([], false)]

theorem Template.marked_eq (t : Template) (key : Text) (facts : List Fact) :
    t.marked key facts = (splitlines (t.header ++ "\n\n".toList)).map (·, false) ++
      (facts.flatMap (Fact.marked key) ++ (splitlines t.tail).map (·, false)) := by
  rw [Template.marked, List.append_assoc]
  rfl

theorem splitlines_line {l rest : Text} (hl : ∀ c ∈ l, isLineBreak c = false) :
    splitlines (l ++ '\n' :: rest) = l :: splitlines rest := by
  rw [splitlines, splitlinesFrom_line _ _ hl, splitlinesFrom_break rfl (Or.inl (by decide)), List.append_nil,
    List.reverse_reverse, splitlines]

theorem field_plain : ∀ c ∈ supersededPrefix ++ f.value, isLineBreak c = false := by
  intro c hc
  rcases List.mem_append.mp hc with hc | hc
  · have hall : (supersededPrefix.all fun c => !isLineBreak c) = true := by decide
    simpa using List.all_eq_true.mp hall c hc
  · exact (mem_value hc).1

theorem newline_last (x : Text) : (x ++ ['\n']).getLast? = some '\n' := by simp

theorem heading_eq (p : Promotion) : ∃ front, p.heading = front ++ ['\n'] := ⟨_, rfl⟩

theorem heading_last (p : Promotion) : p.heading.getLast? = some '\n' := by
  obtain ⟨front, hfront⟩ := heading_eq p
  rw [hfront]
  exact newline_last front

theorem text_eq (f : Fact) : f.text = f.promotion.heading ++ ((supersededPrefix ++ f.value) ++ '\n' :: ['\n']) := by
  simp only [Fact.text, List.append_assoc]
  rfl

theorem text_last (f : Fact) : f.text.getLast? = some '\n' := by
  rw [Fact.text, List.getLast?_append_of_ne_nil _ (by decide)]
  rfl

theorem splitlines_text (f : Fact) : splitlines f.text = (f.marked key).map Prod.fst := by
  have hblank : splitlines ['\n'] = [[]] := rfl
  rw [text_eq, splitlines_append (Or.inr (heading_last _)), splitlines_line field_plain, hblank, Fact.marked,
    List.map_append, List.map_map]
  simp [Function.comp_def]

theorem texts_last (facts : List Fact) : facts.flatMap Fact.text = [] ∨ (facts.flatMap Fact.text).getLast? = some '\n' := by
  cases facts using List.reverseRecOn with
  | nil => exact Or.inl rfl
  | append_singleton facts f =>
      rw [List.flatMap_append, List.getLast?_append, List.flatMap_singleton, text_last]
      exact Or.inr rfl

theorem splitlines_texts (key : Text) (facts : List Fact) :
    splitlines (facts.flatMap Fact.text) = (facts.flatMap (Fact.marked key)).map Prod.fst := by
  induction facts with
  | nil => rfl
  | cons f facts ih =>
      rw [List.flatMap_cons, List.flatMap_cons, splitlines_append (Or.inr (text_last f)), splitlines_text, ih,
        List.map_append]

theorem opening_last (t : Template) : (t.header ++ "\n\n".toList).getLast? = some '\n' := by
  rw [List.getLast?_append_of_ne_nil _ (by decide)]
  rfl

theorem splitlines_document (t : Template) (key : Text) (facts : List Fact) :
    splitlines (t.document facts) = (t.marked key facts).map Prod.fst := by
  rw [Template.document, Template.body, List.append_assoc, splitlines_append (Or.inr (opening_last t)),
    splitlines_append (texts_last facts), splitlines_texts key, Template.marked_eq, List.map_append,
    List.map_append, List.map_map, List.map_map]
  simp [Function.comp_def]

theorem marked_target {x : Text × Bool} (hx : x ∈ t.marked key facts) (htarget : x.2 = true) : isNoneLine x.1 = true := by
  rw [Template.marked_eq, List.mem_append, List.mem_append, List.mem_map, List.mem_map, List.mem_flatMap] at hx
  obtain ⟨line, -, rfl⟩ | ⟨f, -, hf⟩ | ⟨line, -, rfl⟩ := hx
  · cases htarget
  · rw [Fact.marked, List.mem_append, List.mem_map, List.mem_cons, List.mem_singleton] at hf
    obtain ⟨line, -, rfl⟩ | rfl | rfl := hf
    · cases htarget
    · exact isNoneLine_current (of_decide_eq_true htarget)
    · cases htarget
  · cases htarget

/-! ## A promotion -/

/-- What a promotion under the key makes of a fact. -/
def Fact.supersede (key : Text) (u : ShortUuid) (f : Fact) : Fact :=
  if f.IsCurrent key then { f with supersededBy := some u } else f

@[simp] theorem supersede_promotion : (f.supersede key u).promotion = f.promotion := by
  unfold Fact.supersede
  split_ifs <;> rfl

theorem setLine_field : setLine u (supersededPrefix ++ f.value, decide (f.IsCurrent key)) =
    supersededPrefix ++ (f.supersede key u).value := by
  unfold setLine Fact.supersede
  by_cases h : f.IsCurrent key
  · simp [h, Fact.value]
  · simp [h]

/-- What stands in the body of a document, without its line breaks in other spellings. -/
def Template.Plain (t : Template) (facts : List Fact) : Prop := ∀ c ∈ t.body facts, isLineBreak c = true → c = '\n'

theorem Template.Plain.header (h : t.Plain facts) :
    (splitlines (t.header ++ "\n\n".toList)).flatMap (· ++ ['\n']) = t.header ++ "\n\n".toList :=
  join_splitlines (fun c hc => h c (List.mem_append_left _ hc)) (opening_last t)

theorem Template.Plain.heading (h : t.Plain facts) (hf : f ∈ facts) :
    (splitlines f.promotion.heading).flatMap (· ++ ['\n']) = f.promotion.heading := by
  refine join_splitlines (fun c hc => h c (List.mem_append_right _ ?_)) (heading_last _)
  refine List.mem_flatMap.mpr ⟨f, hf, ?_⟩
  rw [text_eq]
  exact List.mem_append_left _ hc

theorem join_set_fact (h : (splitlines f.promotion.heading).flatMap (· ++ ['\n']) = f.promotion.heading) :
    ((f.marked key).map (setLine u)).flatMap (· ++ ['\n']) = (f.supersede key u).text := by
  rw [text_eq, supersede_promotion, Fact.marked, List.map_append, List.map_map, List.map_cons, setLine_field]
  have hheading : (splitlines f.promotion.heading).map (setLine u ∘ fun l => (l, false)) =
      splitlines f.promotion.heading := by simp [Function.comp_def, setLine]
  rw [hheading, List.flatMap_append, h]
  simp [setLine]

theorem join_tail (t : Template) : (splitlines t.tail).flatMap (· ++ ['\n']) = t.tail :=
  join_splitlines (fun c hc => t.plain c (List.mem_append_right _ hc)) t.tail_last

/-- The set lines are those of the document in which the facts of the key are superseded. -/
theorem join_set (h : t.Plain facts) :
    ((t.marked key facts).map (setLine u)).flatMap (· ++ ['\n']) = t.document (facts.map (Fact.supersede key u)) := by
  have hsame : ∀ lines : List Text, (lines.map (·, false)).map (setLine u) = lines := by
    intro lines
    simp [setLine, Function.comp_def]
  have hfacts : ((facts.flatMap (Fact.marked key)).map (setLine u)).flatMap (· ++ ['\n']) =
      (facts.map (Fact.supersede key u)).flatMap Fact.text := by
    rw [List.map_flatMap, List.flatMap_assoc, List.flatMap_map]
    exact List.flatMap_congr fun f hf => join_set_fact (h.heading hf)
  rw [Template.marked_eq, List.map_append, List.map_append, hsame, hsame, List.flatMap_append, List.flatMap_append,
    h.header, hfacts, join_tail, Template.document, Template.body, List.append_assoc, List.append_assoc, List.append_assoc]

theorem Template.Plain.document (h : t.Plain facts) : '\r' ∉ t.document facts := by
  intro hmem
  rcases List.mem_append.mp hmem with hc | hc
  · exact absurd (h _ hc rfl) (by decide)
  · exact absurd (t.plain _ (List.mem_append_right _ hc) rfl) (by decide)

theorem marked_ne_nil : t.marked key facts ≠ [] := by
  intro h
  rw [Template.marked_eq, List.append_eq_nil_iff, List.append_eq_nil_iff, List.map_eq_nil_iff, List.map_eq_nil_iff] at h
  have htail := join_tail t
  have hlast := t.tail_last
  rw [h.2.2] at htail
  rw [← htail] at hlast
  cases hlast

theorem markSuperseded_document (hmeets : Meets t facts key) :
    markSuperseded (some (t.document facts)) key u.hex = some (t.document (facts.map (Fact.supersede key u))) := by
  have hplain : t.Plain facts := hmeets.plain
  rw [markSuperseded, Option.map_some, universalNewlines_of_no_return hplain.document, splitlines_document t key,
    (scanLines_eq_iff fun x hx => marked_target hx).mpr hmeets.found, join_lines (by simp [marked_ne_nil]), join_set hplain]

theorem marker_facts : marker ≠ [] ∧ '\n' ∉ marker ∧ '<' ∈ marker := by decide

theorem supersede_heading (hplain : t.Plain facts) : t.Plain (facts.map (Fact.supersede key u)) := by
  intro c hc hbreak
  rw [Template.body, List.mem_append, List.flatMap_map, List.mem_flatMap] at hc
  obtain hc | ⟨f, hf, hc⟩ := hc
  · exact hplain c (List.mem_append_left _ hc) hbreak
  · rw [text_eq, supersede_promotion, List.mem_append, List.mem_append] at hc
    obtain hc | hc | hc := hc
    · refine hplain c (List.mem_append_right _ (List.mem_flatMap.mpr ⟨f, hf, ?_⟩)) hbreak
      rw [text_eq]
      exact List.mem_append_left _ hc
    · rw [field_plain c hc] at hbreak
      cases hbreak
    · simpa using hc

/-- The body of a document, as lines. -/
theorem body_lines (hplain : t.Plain facts) :
    t.body facts = (splitlines (t.header ++ "\n\n".toList) ++
      facts.flatMap fun f => splitlines f.promotion.heading ++ [supersededPrefix ++ f.value, []]).flatMap
        (· ++ ['\n']) := by
  have hfacts : ∀ f ∈ facts, (splitlines f.promotion.heading ++ [supersededPrefix ++ f.value, []]).flatMap
      (· ++ ['\n']) = f.text := by
    intro f hf
    rw [List.flatMap_append, hplain.heading hf, text_eq]
    simp
  rw [List.flatMap_append, hplain.header, List.flatMap_assoc, Template.body, List.flatMap_congr hfacts]

theorem unmarked_supersede (hplain : t.Plain facts) (hunmarked : ¬marker <:+: t.body facts) :
    ¬marker <:+: t.body (facts.map (Fact.supersede key u)) := by
  intro h
  rw [body_lines (supersede_heading hplain)] at h
  obtain ⟨line, hline, hmarker⟩ := infix_lines marker_facts.1 marker_facts.2.1 h
  apply hunmarked
  rw [body_lines hplain]
  rw [List.mem_append, List.flatMap_map, List.mem_flatMap] at hline
  obtain hline | ⟨f, hf, hline⟩ := hline
  · exact lines_infix (List.mem_append_left _ hline) hmarker
  · rw [supersede_promotion, List.mem_append] at hline
    obtain hline | hline := hline
    · refine lines_infix (List.mem_append_right _ (List.mem_flatMap.mpr ⟨f, hf, ?_⟩)) hmarker
      exact List.mem_append_left _ hline
    · have hopen : '<' ∈ line := hmarker.subset marker_facts.2.2
      simp only [List.mem_cons, List.not_mem_nil, or_false] at hline
      obtain rfl | rfl := hline
      · rcases List.mem_append.mp hopen with hopen | hopen
        · exact absurd hopen (by decide)
        · exact absurd rfl (mem_value hopen).2.2
      · cases hopen

theorem rstrip_body (t : Template) (facts : List Fact) :
    (t.body facts).rdropWhile pyIsSpace ++ "\n\n".toList = t.body facts := by
  obtain ⟨front, hfront, hlast⟩ : ∃ front, t.body facts = front ++ "\n\n".toList ∧
      ∀ c ∈ front.getLast?, pyIsSpace c = false := by
    cases facts using List.reverseRecOn with
    | nil => exact ⟨t.header, by simp [Template.body], t.header_last⟩
    | append_singleton facts f =>
        refine ⟨t.header ++ "\n\n".toList ++ facts.flatMap Fact.text ++ f.promotion.heading ++ supersededPrefix ++
          f.value, ?_, ?_⟩
        · rw [Template.body, List.flatMap_append, List.flatMap_singleton, Fact.text]
          simp only [List.append_assoc]
        · intro c hc
          rw [List.getLast?_append_of_ne_nil _ value_ne_nil] at hc
          exact (mem_value (List.mem_of_getLast? hc)).2.1
  rw [hfront, rstrip_paragraph hlast]

theorem body_last (t : Template) (facts : List Fact) : (t.body facts).getLast? = some '\n' := by
  rw [← rstrip_body, List.getLast?_append_of_ne_nil _ (by decide)]
  rfl

/-- A new fact goes behind the others. -/
theorem document_append (t : Template) (facts : List Fact) (p : Promotion) :
    t.body facts ++ p.newEntry ++ "\n".toList ++ t.tail = t.document (facts ++ [⟨p, none⟩]) := by
  have htext : Fact.text ⟨p, none⟩ = p.newEntry ++ "\n".toList := by
    have hnewlines : "\n\n".toList = "\n".toList ++ "\n".toList := rfl
    rw [Fact.text, Promotion.newEntry, hnewlines, List.append_assoc _ "\n".toList "\n".toList]
    rfl
  rw [Template.document, Template.body, Template.body, List.flatMap_append, List.flatMap_singleton, htext]
  simp only [List.append_assoc]

/-- **A promotion** supersedes the current facts of its key and adds its own. -/
theorem promote_document (hmeets : Meets t facts p.episodicKey) :
    promoteEpisodicToDurable (some (t.document facts)) p =
      t.document (facts.map (Fact.supersede p.episodicKey p.uuid) ++ [⟨p, none⟩]) := by
  have hplain := @supersede_heading p.episodicKey t facts p.uuid hmeets.plain
  have hbefore : textBefore marker (t.document (facts.map (Fact.supersede p.episodicKey p.uuid))) =
      some (t.body (facts.map (Fact.supersede p.episodicKey p.uuid))) :=
    textBefore_append (unmarked_supersede hmeets.plain hmeets.unmarked) (Or.inr (body_last _ _)) marker_facts.2.1
      t.tail_marker marker_facts.1
  simp only [promoteEpisodicToDurable, markSuperseded_document hmeets, universalNewlines_of_no_return hplain.document,
    hbefore]
  rw [rstrip_body, Template.document, List.drop_left]
  exact document_append _ _ _

/-! ## A run -/

theorem factsOf_append (calls : List Promotion) (p : Promotion) :
    factsOf (calls ++ [p]) = (factsOf calls).map (Fact.supersede p.episodicKey p.uuid) ++ [⟨p, none⟩] := by
  induction calls with
  | nil => simp [factsOf]
  | cons q calls ih =>
      rw [List.cons_append, factsOf, ih, factsOf, List.map_cons, List.cons_append]
      refine congrArg₂ List.cons ?_ rfl
      simp only [Fact.supersede, Fact.IsCurrent, List.find?_append, Option.map_eq_none_iff]
      by_cases hfind : calls.find? (fun r => r.episodicKey = q.episodicKey) = none
      · by_cases hkey : p.episodicKey = q.episodicKey
        · simp [hfind, hkey]
        · simp [hfind, hkey, Ne.symm hkey]
      · obtain ⟨r, hr⟩ := Option.ne_none_iff_exists'.mp hfind
        simp [hr]

theorem promoteAll_append (file : Option Text) (calls : List Promotion) (p : Promotion) :
    promoteAll file (calls ++ [p]) = some (promoteEpisodicToDurable (promoteAll file calls) p) := by
  rw [promoteAll, List.foldl_append]
  rfl

theorem defaultTemplate_header : defaultTemplate.header = defaultHeader := rfl

theorem defaultTemplate_tail : defaultTemplate.tail = defaultTail := rfl

/-- Where there is no file yet the default text stands in for it. -/
theorem promote_absent (hmeets : Meets defaultTemplate [] p.episodicKey) :
    promoteEpisodicToDurable none p = defaultTemplate.document [⟨p, none⟩] := by
  have hdocument : defaultHeader ++ "\n\n".toList ++ defaultTail = defaultTemplate.document [] := by
    rw [Template.document, Template.body, List.flatMap_nil, List.append_nil, defaultTemplate_header,
      defaultTemplate_tail]
  have hbefore : textBefore marker (defaultTemplate.document []) = some (defaultTemplate.body []) :=
    textBefore_append hmeets.unmarked (Or.inr (body_last _ _)) marker_facts.2.1 defaultTemplate.tail_marker marker_facts.1
  simp only [promoteEpisodicToDurable, markSuperseded, Option.map_none, hdocument, hbefore]
  rw [rstrip_body, Template.document, List.drop_left]
  exact document_append _ [] p

/-- What a run starts from: a document without facts, or no file. -/
def Starts (t : Template) (start : Option Text) : Prop := start = some (t.document []) ∨ start = none ∧ t = defaultTemplate

/-- **A run** whose promotions all meet what they need leaves the document of its facts. -/
theorem promoteAll_document {start : Option Text} (hstart : Starts t start) (hne : calls ≠ [])
    (hmeets : ∀ before p after, calls = before ++ p :: after → Meets t (factsOf before) p.episodicKey) :
    promoteAll start calls = some (t.document (factsOf calls)) := by
  induction calls using List.reverseRecOn with
  | nil => exact absurd rfl hne
  | append_singleton calls p ih =>
      have hlast : Meets t (factsOf calls) p.episodicKey := hmeets calls p [] rfl
      rw [promoteAll_append, factsOf_append]
      apply congrArg some
      cases calls with
      | nil =>
          obtain rfl | ⟨rfl, rfl⟩ := hstart
          · exact promote_document hlast
          · exact promote_absent hlast
      | cons q calls =>
          rw [ih (List.cons_ne_nil q calls) fun before r after hcalls =>
            hmeets before r (after ++ [p]) (by rw [hcalls]; simp)]
          exact promote_document hlast

theorem promotion_factsOf (calls : List Promotion) : (factsOf calls).map (·.promotion) = calls := by
  induction calls with
  | nil => rfl
  | cons p calls ih => rw [factsOf, List.map_cons, ih]

/-- A fact is superseded by the first later promotion of its key. -/
theorem getElem?_factsOf (before after : List Promotion) (p : Promotion) :
    (factsOf (before ++ p :: after))[before.length]? =
      some ⟨p, (after.find? fun q => q.episodicKey = p.episodicKey).map (·.uuid)⟩ := by
  induction before with
  | nil => rfl
  | cons q before ih => rw [List.cons_append, factsOf, List.length_cons, List.getElem?_cons_succ, ih]

/-- One fact of each key that has been promoted is current. -/
theorem countP_current (calls : List Promotion) (key : Text) :
    ((factsOf calls).countP fun f => decide (f.IsCurrent key)) = if ∃ p ∈ calls, p.episodicKey = key then 1 else 0 := by
  induction calls with
  | nil => simp [factsOf]
  | cons p calls ih =>
      rw [factsOf, List.countP_cons, ih]
      by_cases hkey : p.episodicKey = key
      · by_cases hlater : ∃ q ∈ calls, q.episodicKey = key
        · obtain ⟨q, hq, hqkey⟩ := hlater
          have hsome : calls.find? (fun r => r.episodicKey = key) ≠ none := by
            rw [Ne, List.find?_eq_none]
            intro hnone
            exact hnone q hq (by simpa using hqkey)
          simp [Fact.IsCurrent, hkey, hsome, show ∃ q ∈ calls, q.episodicKey = key from ⟨q, hq, hqkey⟩]
        · have hnone : calls.find? (fun r => r.episodicKey = key) = none := by
            rw [List.find?_eq_none]
            intro q hq hqkey
            exact hlater ⟨q, hq, by simpa using hqkey⟩
          simp [Fact.IsCurrent, hkey, hnone, hlater]
      · simp [Fact.IsCurrent, hkey]

end CryptoAggHarmonic.LoopTools
