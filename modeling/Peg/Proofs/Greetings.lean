import Mathlib.Computability.Language
import Mathlib.Order.Bounds.Defs
import Peg.Proofs.Semantics.Choices
import Peg.Proofs.TextPreservation
import Peg.Sample.Greetings

namespace Peg

/-- No phrase begins another one, and none is empty. -/
structure PrefixFree (phrases : Language Char) : Prop where
  unextended : ∀ p ∈ phrases, ∀ q ∈ phrases, p <+: q → p = q
  nonempty : ∀ p ∈ phrases, p ≠ []

open scoped Computability

section

variable {phrases : Language Char} {ps qs : List (List Char)} {text rest : List Char}

theorem exists_phrases (free : PrefixFree phrases) (text : List Char) :
    ∃ (ps : List (List Char)) (rest : List Char), text = ps.flatten ++ rest ∧
      (∀ p ∈ ps, p ∈ phrases) ∧ ∀ p ∈ phrases, ¬ p <+: rest := by
  induction length : text.length using Nat.strongRecOn generalizing text with
  | _ n ih =>
    by_cases here : ∃ p ∈ phrases, p <+: text
    · obtain ⟨p, mem, text, rfl⟩ := here
      have shorter : text.length < n := by
        have pos := List.length_pos_iff.mpr (free.nonempty p mem)
        rw [List.length_append] at length
        omega
      obtain ⟨ps, rest, rfl, all, stops⟩ := ih _ shorter text rfl
      exact ⟨p :: ps, rest, by simp, List.forall_mem_cons.mpr ⟨mem, all⟩, stops⟩
    · exact ⟨[], text, rfl, by simp, fun p mem there => here ⟨p, mem, there⟩⟩

theorem PrefixFree.length_flatten_le (free : PrefixFree phrases) (all : ∀ p ∈ ps, p ∈ phrases)
    (stops : ∀ p ∈ phrases, ¬ p <+: rest) (all' : ∀ q ∈ qs, q ∈ phrases)
    (there : qs.flatten <+: ps.flatten ++ rest) : qs.flatten.length ≤ ps.flatten.length := by
  induction qs generalizing ps with
  | nil => simp
  | cons q qs ih =>
    rw [List.forall_mem_cons] at all'
    have begins : q <+: ps.flatten ++ rest :=
      (List.prefix_append q qs.flatten).trans (by simpa using there)
    cases ps with
    | nil => exact absurd begins (stops q all'.1)
    | cons p ps =>
      rw [List.forall_mem_cons] at all
      have same : p = q := by
        have begins' : p <+: (p :: ps).flatten ++ rest := by simp
        rcases List.prefix_or_prefix_of_prefix begins' begins with le | le
        · exact free.unextended p all.1 q all'.1 le
        · exact (free.unextended q all'.1 p all.1 le).symm
      subst same
      have later : qs.flatten <+: ps.flatten ++ rest := by
        simpa [List.append_assoc] using there
      have le := ih all.2 all'.2 later
      simpa using le

/-- Where no further phrase stands, the phrases taken are the longest beginning of the text that is
made of phrases. -/
theorem PrefixFree.longest (free : PrefixFree phrases) (all : ∀ p ∈ ps, p ∈ phrases)
    (stops : ∀ p ∈ phrases, ¬ p <+: rest) (cut : text = ps.flatten ++ rest) :
    IsGreatest {n | n ≤ text.length ∧ text.take n ∈ phrases∗} ps.flatten.length := by
  subst cut
  constructor
  · refine ⟨by simp, ?_⟩
    rw [List.take_left]
    exact Language.join_mem_kstar all
  -- Another beginning that is made of phrases is made of some of these.
  · rintro n ⟨le, member⟩
    obtain ⟨qs, eq, all'⟩ := Language.mem_kstar.mp member
    have there : qs.flatten <+: ps.flatten ++ rest := eq ▸ List.take_prefix n _
    have shorter := free.length_flatten_le all stops all' there
    rwa [← eq, List.length_take, Nat.min_eq_left le] at shorter

end

namespace Sample.Greetings

open Meaning.Settles

def phrases : List String := ["Hello Dan", "Hello Chess", "Hello Adam", "Hello Lewis"]

def greeted : Language Char := {text | ∃ phrase ∈ phrases, text = phrase.toList}

theorem mem_greeted_iff {text : List Char} :
    text ∈ greeted ↔ ∃ name ∈ flatmates, text = "Hello ".toList ++ name.toList := by
  have named : phrases = flatmates.map ("Hello " ++ ·) := by decide
  constructor
  · rintro ⟨phrase, mem, rfl⟩
    rw [named] at mem
    obtain ⟨name, mem', rfl⟩ := List.mem_map.mp mem
    exact ⟨name, mem', String.toList_append⟩
  · rintro ⟨name, mem, rfl⟩
    refine ⟨"Hello " ++ name, ?_, String.toList_append.symm⟩
    rw [named]
    exact List.mem_map_of_mem mem

theorem prefixFree_greeted : PrefixFree greeted where
  unextended := by
    rintro _ ⟨p, mem, rfl⟩ _ ⟨q, mem', rfl⟩ begins
    revert p q
    decide
  nonempty := by
    rintro _ ⟨p, mem, rfl⟩
    revert p
    decide

/-- What the program is made of. -/
structure Laid (g : Grammar) (hello flatmate greet greetings : HandleId) : Prop where
  at_hello : g.Holds hello (.literal "Hello ")
  at_flatmate : g.OneOf (fun h name => g.Holds h (.literal name)) flatmates flatmate
  at_greet : g.Holds greet (.sequence .concat [(hello, some .text), (flatmate, some .text)])
  at_greetings : g.Holds greetings (.repetition .concat greet 0 none none)

theorem build_laid :
    build.Builds fun e g => ∃ hello, Laid g hello e.flatmate e.greet e.greetings := by
  have names : (flatmates.mapM fun name => Build.string (.inl name)).Builds fun hs g =>
      List.Forall₂ (fun h name => g.Holds h (.literal name)) hs flatmates :=
    .mapM (fun name => Action.builds_make (.literal name)) flatmates
  have greet (hello flatmate : HandleId) : (Build.sequence .concat
      [.pair (.parser hello) (some .text), .pair (.parser flatmate) (some .text)]).Builds fun h g =>
        g.Holds h (.sequence .concat [(hello, some .text), (flatmate, some .text)]) :=
    Build.builds_made _
  have many (greet : HandleId) : (Build.many .concat (.parser greet) none).Builds fun h g =>
      g.Holds h (.repetition .concat greet 0 none none) :=
    Build.builds_repetition .many rfl rfl greet 0 none
  have built := names.bind fun hs made => (Build.builds_oneOf (by decide) made).bind
    fun flatmate _ => (Action.builds_make (.literal "Hello ")).bind fun hello _ =>
    (greet hello flatmate).bind fun greet _ => (many greet).bind fun greetings _ =>
    Action.Builds.done (⟨flatmate, greet, greetings⟩ : Greetings)
  intro w
  obtain ⟨e, w', ran, kept, opens, post⟩ := built w
  refine ⟨e, w', ran, kept, opens, fun g later => ?_⟩
  obtain ⟨hs, stand, flatmate, ⟨first, others, rfl, choice⟩, hello, at_hello, greet, at_greet,
    greetings, at_greetings, rfl⟩ := post g later
  exact ⟨hello, at_hello, ⟨first, others, choice, stand⟩, at_greet, at_greetings⟩

structure Works (m : Meaning) : Prop where
  release (v : Value) : (m.release .text v).Gives (.done ())
  concat {vs : List Value} : (∀ v ∈ vs, v.Textual) →
    (m.fold .concat vs).Gives (.done (.text (String.ofList (vs.flatMap Value.letters))))

theorem standard_works (compute : Standard.Calculation) (levels : Nat) :
    Works (Meaning.standard compute levels) where
  release v := by cases levels <;> exact Callback.gives_done ()
  concat {vs} textual := by
    obtain ⟨text, joined, letters⟩ := join_textual 0 textual
    rw [(Meaning.standard_joins compute levels).fold compute, ← letters, String.ofList_toList]
    refine Callback.gives_ok ?_
    rw [joined]
    rfl

section Runs

variable {m : Meaning} {g : Grammar} {c next : Cursor} {hello flatmate greet greetings : HandleId}
  (laid : Laid g hello flatmate greet greetings) (works : Works m)
include laid

theorem flatmate_read {name : String} (mem : name ∈ flatmates) (spans : c.Spans name.toList next) :
    m.Settles g (.call flatmate) c 2 (.done (.success (.text name) next)) := by
  have apart : ∀ p ∈ flatmates, ∀ q ∈ flatmates, q ≠ p → ¬ q.toList <+: p.toList ∧
      ¬ p.toList <+: q.toList := by decide
  refine oneOf_read laid.at_flatmate mem (fun k other mem' literal ne => ?_)
    (fun k literal => literal_read literal spans) (Nat.le_refl 1)
  refine literal_unread literal fun there => ?_
  have here : name.toList <+: c.ahead := ⟨next.ahead, spans.2.symm⟩
  obtain ⟨not_le, not_ge⟩ := apart name mem other mem' ne
  rcases List.prefix_or_prefix_of_prefix there here with le | ge
  · exact not_le le
  · exact not_ge ge

include works

theorem greet_read {name : String} (mem : name ∈ flatmates)
    (spans : c.Spans ("Hello ".toList ++ name.toList) next) :
    m.Settles g (.call greet) c 3
      (.done (.success (.text (String.ofList ("Hello ".toList ++ name.toList))) next)) := by
  obtain ⟨mid, first, second⟩ := spans.split
  have idle : Held.Idle m [(.text "Hello ", some .text)] := by
    simpa [Held.Idle] using works.release _
  have textual : ∀ v ∈ [Value.text "Hello ", .text name], v.Textual := by simp [Value.Textual]
  have both := works.concat textual
  have last : m.Settles g (.items .concat [(flatmate, some .text)]
      [(.text "Hello ", some .text)]) mid 2 _ :=
    (flatmate_read laid mem second).itemDone_idle idle (itemsDone (finish_held both))
  have items : m.Settles g (.items .concat [(hello, some .text), (flatmate, some .text)] (loose []))
      c 2 _ := (literal_read laid.at_hello first).itemDone_idle (idle_loose m []) last
  simpa [Ending.map, Value.letters] using holds laid.at_greet (sequence items)

theorem greet_unread (absent : ∀ p ∈ greeted, ¬ p <+: c.ahead) :
    ∃ d f, d ≤ 3 ∧ m.Settles g (.call greet) c d (.done (.failure f)) := by
  by_cases here : "Hello ".toList <+: c.ahead
  · obtain ⟨rest, ahead⟩ := here
    obtain ⟨mid, first, rfl⟩ := Cursor.exists_spans ahead.symm
    have idle : Held.Idle m [(.text "Hello ", some .text)] := by
      simpa [Held.Idle] using works.release _
    obtain ⟨f, unread⟩ : ∃ f, m.Settles g (.call flatmate) mid 2 (.done (.failure f)) := by
      refine oneOf_unread laid.at_flatmate fun k name mem literal => literal_unread literal fun there => ?_
      refine absent _ (mem_greeted_iff.mpr ⟨name, mem, rfl⟩) ?_
      rw [← ahead]
      exact (List.prefix_append_right_inj _).mpr there
    have items : m.Settles g (.items .concat [(hello, some .text), (flatmate, some .text)]
        (loose [])) c 2 _ :=
      (literal_read laid.at_hello first).itemDone_idle (idle_loose m []) (unread.itemFailed_idle idle)
    exact ⟨3, f, Nat.le_refl 3, holds laid.at_greet (sequence items)⟩
  · obtain ⟨f, unread⟩ := literal_unread (m := m) laid.at_hello here
    have items : m.Settles g (.items .concat [(hello, some .text), (flatmate, some .text)]
        (loose [])) c 1 _ := unread.itemFailed_idle (idle_loose m [])
    exact ⟨2, f, by decide, holds laid.at_greet (sequence items)⟩

theorem turns_read {ps : List (List Char)} {vs : List Value} (all : ∀ p ∈ ps, p ∈ greeted)
    (textual : ∀ v ∈ vs, v.Textual) (spans : c.Spans ps.flatten next)
    (stops : ∀ p ∈ greeted, ¬ p <+: next.ahead) :
    ∃ d, d ≤ 3 ∧ m.Settles g (.turns .concat greet 0 none none (loose vs)) c d
      (.done (.success (.text (String.ofList (vs.flatMap Value.letters ++ ps.flatten))) next)) := by
  induction ps generalizing c vs with
  | nil =>
    obtain rfl := spans.unique (.nil c)
    obtain ⟨d, f, le, unread⟩ := greet_unread laid works stops
    have ended := unread.turnFailed (Int.natCast_nonneg _) (works.concat textual)
    exact ⟨d, le, by simpa [Ending.map] using ended⟩
  | cons p ps ih =>
    rw [List.forall_mem_cons] at all
    obtain ⟨name, mem, rfl⟩ := mem_greeted_iff.mp all.1
    obtain ⟨mid, first, rest⟩ : ∃ mid, c.Spans ("Hello ".toList ++ name.toList) mid ∧
        mid.Spans ps.flatten next := spans.split
    have moved : mid.pos ≠ c.pos := by
      rw [first.pos_eq, List.length_append]
      have long : "Hello ".toList.length = 6 := rfl
      omega
    have read := greet_read laid works mem first
    have textual' : ∀ v ∈ vs ++ [.text (String.ofList ("Hello ".toList ++ name.toList))],
        v.Textual :=
      List.forall_mem_append.mpr ⟨textual, List.forall_mem_singleton.mpr (.inr ⟨_, rfl⟩)⟩
    obtain ⟨d, le, later⟩ := ih all.2 textual' rest
    refine ⟨max 3 d, by omega, ?_⟩
    simpa [Value.letters] using read.turnMoved moved later

theorem greetings_read (text : String) : ∃ d next, d ≤ 4 ∧
    next.input = Input.ofString text ∧
    IsGreatest {n | n ≤ text.length ∧ text.toList.take n ∈ greeted∗} next.pos ∧
    m.Settles g (.call greetings) (.start (Input.ofString text)) d
      (.done (.success (.text (String.ofList (text.toList.take next.pos))) next)) := by
  obtain ⟨ps, rest, cut, all, stops⟩ := exists_phrases prefixFree_greeted text.toList
  obtain ⟨next, spans, rfl⟩ := Cursor.exists_spans ((Cursor.ahead_start text).trans cut)
  have pos : next.pos = ps.flatten.length := by
    rw [spans.pos_eq]
    exact Nat.zero_add _
  have longest := prefixFree_greeted.longest all stops cut
  obtain ⟨d, le, turns⟩ := turns_read laid works all (List.forall_mem_nil _) spans stops
  refine ⟨d + 1, next, by omega, spans.1, ?_, ?_⟩
  · rwa [pos, ← String.length_toList]
  · rw [pos, cut, List.take_left]
    exact holds laid.at_greetings (repetition turns)

end Runs

/-- What is built reads as many greetings as stand at the start of a text, and yields them as they
stand there. Four levels are enough, in every later world that keeps the parsers. -/
theorem greetings_longest (w : World) : ∃ e w', build w = (.done e, w') ∧
    ∀ (compute : Standard.Calculation) (levels : Nat) (later : World),
      w'.store.grammar.KeptIn later.store.grammar →
      ∀ (text : String) (config : Config), 4 ≤ config.maxDepth → ∃ next : Cursor,
        ((Meaning.standard compute levels).parse e.greetings text config later).1 =
          .done (.success (.text (String.ofList (text.toList.take next.pos))) next) ∧
        next.input = Input.ofString text ∧
        IsGreatest {n | n ≤ text.length ∧ text.toList.take n ∈ greeted∗} next.pos := by
  obtain ⟨e, w', ran, _, _, post⟩ := build_laid w
  refine ⟨e, w', ran, fun compute levels later kept text config room => ?_⟩
  obtain ⟨hello, laid⟩ := post _ kept
  obtain ⟨d, next, le, input, longest, settles⟩ :=
    greetings_read laid (standard_works compute levels) text
  exact ⟨next, by rw [settles.parse_eq config rfl, if_pos (by omega)], input, longest⟩

theorem greetings_longest_cut_short : ∃ e w', build {} = (.done e, w') ∧
    (Meaning.usual.parse e.greetings "Hello LewisHello Da" ⟨4, false, "", by decide⟩ w').1 =
      .done (.success (.text "Hello Lewis")
        ⟨Input.ofString "Hello LewisHello Da", 11, by decide⟩) := by
  obtain ⟨e, w', ran, parses⟩ := greetings_longest {}
  obtain ⟨next, eq, input, longest⟩ := parses Operator.apply Meaning.nestingLevels w' (.refl _)
    "Hello LewisHello Da" ⟨4, false, "", by decide⟩ (Int.le_refl 4)
  have one : IsGreatest {n | n ≤ "Hello LewisHello Da".length ∧
      "Hello LewisHello Da".toList.take n ∈ greeted∗} 11 := by
    have mem : "Hello Lewis".toList ∈ greeted := ⟨"Hello Lewis", by decide, rfl⟩
    have stops : ∀ p ∈ greeted, ¬ p <+: "Hello Da".toList := by
      rintro _ ⟨p, mem, rfl⟩
      revert p
      decide
    exact prefixFree_greeted.longest (List.forall_mem_singleton.mpr mem) stops rfl
  obtain ⟨_, pos, _⟩ := next
  obtain rfl := longest.unique one
  obtain rfl := input
  exact ⟨e, w', ran, eq⟩

end Sample.Greetings

end Peg
