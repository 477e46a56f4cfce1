import CoplusLean.Models.ClientCommands
import CoplusLean.Proofs.DirectMessages
import CoplusLean.Proofs.ServiceRepeats
import CoplusLean.Proofs.SplitLimit

/-!
# A message from one console to another

What a user types behind `6` and an id goes through `split`, a request, the server's
`dispatch`, a direct message and the other client's `format_message`. The text arrives as it
was typed, with the space that separates it from the id.
-/

namespace CoplusLean

open Lib

namespace StringUtil

variable {str pre t : Bytes} {count maxPartition : Int} {ret : List Bytes}

/-- A word and the spaces in front of it. -/
structure Word where
  gap : Bytes
  text : Bytes

/-- The words one behind the other. -/
def spell (ws : List Word) : Bytes := ws.flatMap fun w => w.gap ++ w.text

/-- The words do not run into each other, nor the last one into `t`. -/
def Separated : List Word → Bytes → Prop
  | [], _ => True
  | w :: ws, t => ((∀ b ∈ w.gap, b = 32) ∧ w.text ≠ [] ∧ 32 ∉ w.text ∧
      ∀ b ∈ (spell ws ++ t).head?, b = 32) ∧ Separated ws t

/-- The loop stops behind as many words as the limit allows. -/
lemma splitSpaceLoop_words {ws : List Word} (hstr : str = pre ++ (spell ws ++ t))
    (hsep : Separated ws t) (hlen : str.length < 2147483648)
    (hroom : Room count maxPartition ret ws.length) {fuel : Nat} (hfuel : ws.length < fuel) :
    splitSpaceLoop str count maxPartition fuel pre.length ret =
      some (((pre ++ spell ws).length : Int), ret ++ ws.map Word.text) := by
  induction ws generalizing pre ret fuel with
  | nil =>
    obtain ⟨fuel, rfl⟩ : ∃ k, fuel = k + 1 := ⟨fuel - 1, by simp at hfuel; omega⟩
    rw [splitSpaceLoop_closed hroom.closed, spell, List.flatMap_nil, List.append_nil, List.map_nil,
      List.append_nil]
  | cons w ws ih =>
    obtain ⟨fuel, rfl⟩ : ∃ k, fuel = k + 1 := ⟨fuel - 1, by simp at hfuel; omega⟩
    obtain ⟨⟨hgap, htext, hnone, hnext⟩, hrest⟩ := hsep
    have hparts : str = pre ++ (w.gap ++ (w.text ++ (spell ws ++ t))) := by
      rw [hstr, spell, List.flatMap_cons, ← spell]
      simp only [List.append_assoc]
    have hend : pre.length + w.gap.length + w.text.length < 2147483648 := by
      rw [hparts] at hlen
      simp only [List.length_append] at hlen
      omega
    have hspaces : ∀ b ∈ w.gap, isSep [32] b = true := fun b hb => by simpa [isSep] using hgap b hb
    have hword : ∀ b ∈ w.text, isSep [32] b = false := by
      intro b hb
      have hne : b ≠ 32 := fun h => hnone (h ▸ hb)
      simpa [isSep] using hne
    have hfollows : ∀ b ∈ (spell ws ++ t).head?, isSep [32] b = true := fun b hb => by
      simpa [isSep] using hnext b hb
    have hpiece := nextPiece_eq_some hspaces htext hword hfollows hparts hend
    have hbehind : str = (pre ++ (w.gap ++ w.text)) ++ (spell ws ++ t) := by
      rw [hparts]
      simp only [List.append_assoc]
    have hwords := ih hbehind hrest (hroom.push w.text) (by simpa using hfuel)
    rw [splitSpaceLoop_fits hroom.mayGoOn htext hparts hend hpiece, hwords]
    simp only [spell, List.flatMap_cons, List.map_cons, List.append_assoc, List.singleton_append]

/-- With a limit, the words up to it become elements and what follows is the last one. -/
lemma splitSpace_words {ws : List Word} (hstr : str = spell ws ++ t) (hsep : Separated ws t)
    (hlen : str.length < 2147483647) :
    splitSpace str [] (ws.length + 1 : Nat) =
      some (ws.map Word.text ++ (if t = [] then [] else [t]),
        ((ws.map Word.text ++ (if t = [] then [] else [t])).length : Int)) := by
  have hwords : ws.length ≤ (spell ws).length := by
    clear hstr
    induction ws with
    | nil => rfl
    | cons w ws ih =>
      obtain ⟨⟨-, htext, -⟩, hrest⟩ := hsep
      have hpos := List.length_pos_iff.mpr htext
      have hle := ih hrest
      rw [spell, List.flatMap_cons, ← spell]
      simp only [List.length_append, List.length_cons]
      omega
  have hlength : str.length = (spell ws).length + t.length := by rw [hstr, List.length_append]
  have hroom : Room 0 ((ws.length + 1 : Nat) : Int) [] ws.length := by
    have h : Room (int32 (([] : List Bytes).length : Nat)) ((ws.length + 1 : Nat) : Int) []
        (((ws.length + 1 : Nat) : Int).toNat - 1) := room_of_lt (by omega) (by omega) (by simp)
    simpa using h
  have hloop : splitSpaceLoop str 0 ((ws.length + 1 : Nat) : Int) (str.length + 1) 0 [] =
      some (((spell ws).length : Int), ws.map Word.text) :=
    splitSpaceLoop_words (show str = [] ++ (spell ws ++ t) from hstr) hsep (by omega) hroom
      (by omega)
  have hpos : sizeT ((spell ws).length : Int) = (spell ws).length := sizeT_natCast (by omega)
  have htail : pushTail str ((spell ws).length : Int) (ws.map Word.text) =
      ws.map Word.text ++ (if t = [] then [] else [t]) := by
    rw [pushTail, hpos]
    by_cases ht : t = []
    · subst ht
      rw [if_neg (by simp [hlength]), if_pos rfl, List.append_nil]
    · have htpos := List.length_pos_iff.mpr ht
      rw [if_pos (by omega), if_neg ht, hstr, List.drop_left]
  have hcount : int32 (((ws.map Word.text ++ (if t = [] then [] else [t])).length : Int) - 0) =
      (ws.map Word.text ++ (if t = [] then [] else [t])).length := by
    rw [sub_zero]
    apply int32_natCast
    rw [List.length_append, List.length_map]
    split <;> simp <;> omega
  have hzero : int32 (([] : List Bytes).length : Int) = 0 := rfl
  simp only [splitSpace, hzero, hloop, Option.map_some, htail, hcount]

end StringUtil

namespace Client

open Protocol Server StringUtil

variable {line word id text : Bytes}

/-- A line as one types it: a word, an id without a colon, and what stands behind it. -/
structure Typed (line word id text : Bytes) : Prop where
  line : ∃ gap gap', (∀ b ∈ gap, b = 32) ∧ (∀ b ∈ gap', b = 32) ∧ gap' ≠ [] ∧
    line = gap ++ word ++ gap' ++ id ++ text
  word_ne : word ≠ []
  word_space : 32 ∉ word
  id_ne : id ≠ []
  id_space : 32 ∉ id
  id_colon : 58 ∉ id
  text : ∃ rest, text = 32 :: rest

/-- The four parts of the line. -/
lemma Typed.splitSpace (h : Typed line word id text) (hlen : line.length + 4 < 2147483647) :
    splitSpace (cinPrefix ++ line) [] 4 = some ([[99, 105, 110], word, id, text], 4) := by
  obtain ⟨gap, gap', hgap, hgap', hne, hline⟩ := h.line
  obtain ⟨rest, htext⟩ := h.text
  have hparts : cinPrefix ++ line =
      spell [⟨[], [99, 105, 110]⟩, ⟨32 :: gap, word⟩, ⟨gap', id⟩] ++ text := by
    rw [hline]
    simp [spell, cinPrefix]
  have hsep : Separated [⟨[], [99, 105, 110]⟩, ⟨32 :: gap, word⟩, ⟨gap', id⟩] text := by
    obtain ⟨b, gap', rfl⟩ := List.exists_cons_of_ne_nil hne
    have hb := hgap' b List.mem_cons_self
    refine ⟨⟨by simp, by simp, by decide, by simp [spell]⟩,
      ⟨by simpa using hgap, h.word_ne, h.word_space, by simpa [spell] using hb⟩,
      ⟨hgap', h.id_ne, h.id_space, by simp [spell, htext]⟩, trivial⟩
  have hsplit := splitSpace_words hparts hsep (by rw [List.length_append, cinPrefix]; simp; omega)
  rw [if_neg (by rw [htext]; exact List.cons_ne_nil _ _)] at hsplit
  exact hsplit

end Client

end CoplusLean
