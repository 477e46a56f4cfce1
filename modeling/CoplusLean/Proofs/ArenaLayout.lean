import CoplusLean.Proofs.ArenaCells
import Mathlib.Logic.Function.Basic

/-!
# Layouts: what the arena is about

A layout cuts the handles `1 .. top` into spans and says of each whether it is free, a chunk
in use or a page of a bin; free spans and bin pages are in exactly one list. A span that an
operation has taken out of its list and not yet put anywhere is `held`. The operations of
the arena are built from seven moves, each of which keeps a layout sound.
-/

namespace CoplusLean.Arena

open Lib

inductive Kind where
  | held
  | free
  | chunk
  | page (slot : Int)
deriving DecidableEq, Repr

/-- `len h` is the length of the span that starts at `h`, or `0` where none does; then
`kind h` means nothing. -/
structure Layout where
  top : Int
  len : Int → Int
  kind : Int → Kind
  list : ListId → List Int

namespace Layout

/-- The list a span belongs to. -/
def home (g : Layout) (h : Int) : Option ListId :=
  match g.kind h with
  | .free => some (.span (g.len h))
  | .page s => some (.bin s)
  | .held => none
  | .chunk => none

structure Sound (g : Layout) : Prop where
  top_bounds : 0 ≤ g.top ∧ g.top ≤ 180218
  span : ∀ h, g.len h ≠ 0 → 1 ≤ h ∧ 1 ≤ g.len h ∧ g.len h ≤ 60 ∧ h + g.len h ≤ g.top + 1
  inside : ∀ h j, g.len h ≠ 0 → h < j → j < h + g.len h → g.len j = 0
  succ : ∀ h, g.len h ≠ 0 → h + g.len h = g.top + 1 ∨ g.len (h + g.len h) ≠ 0
  first : g.top = 0 ∨ g.len 1 ≠ 0
  page : ∀ h s, g.len h ≠ 0 → g.kind h = .page s → 1 ≤ s ∧ s ≤ 39 ∧ g.len h = binSpanSize s
  mem : ∀ i h, i.Valid → (h ∈ g.list i ↔ g.len h ≠ 0 ∧ g.home h = some i)

variable {g : Layout} {h n k : Int} {i : ListId}

lemma Sound.bounds (hg : g.Sound) (hh : g.len h ≠ 0) : 1 ≤ h ∧ h ≤ 180218 := by
  have := hg.span h hh
  have := hg.top_bounds
  omega

/-- The spans of a bin are its pages. -/
lemma Sound.mem_bin (hg : g.Sound) {s : Int} (hi : (ListId.bin s).Valid) :
    h ∈ g.list (.bin s) ↔ g.len h ≠ 0 ∧ g.kind h = .page s := by
  rw [hg.mem _ h hi]
  unfold home
  cases g.kind h <;> simp

/-- The spans of a list of free spans are those of its length. -/
lemma Sound.mem_span (hg : g.Sound) (hi : (ListId.span k).Valid) :
    h ∈ g.list (.span k) ↔ g.len h ≠ 0 ∧ g.kind h = .free ∧ g.len h = k := by
  rw [hg.mem _ h hi]
  unfold home
  cases g.kind h <;> simp

/-- Two spans do not overlap. -/
lemma Sound.apart (hg : g.Sound) {h' : Int} (hh : g.len h ≠ 0) (hh' : g.len h' ≠ 0)
    (hlt : h < h') : h + g.len h ≤ h' := by
  by_contra hcon
  exact hh' (hg.inside h h' hh hlt (by omega))

/-- Every handle up to `top` is in a span. -/
lemma Sound.cover (hg : g.Sound) (j : Int) (h1 : 1 ≤ j) (htop : j ≤ g.top) :
    ∃ h, g.len h ≠ 0 ∧ h ≤ j ∧ j < h + g.len h := by
  obtain ⟨m, rfl⟩ : ∃ m : Nat, j = m + 1 := ⟨(j - 1).toNat, by omega⟩
  -- induction from the first handle: the span of a handle reaches on, or the next begins
  induction m with
  | zero =>
    have h1 : g.len 1 ≠ 0 := by
      rcases hg.first with hzero | hone
      · omega
      · exact hone
    have := hg.span 1 h1
    exact ⟨1, h1, by omega, by omega⟩
  | succ m ih =>
    obtain ⟨h, hh, hle, hlt⟩ := ih (by omega) (by omega)
    by_cases hin : (m : Int) + 2 < h + g.len h
    · exact ⟨h, hh, by omega, by omega⟩
    · have heq : h + g.len h = (m + 1 : Nat) + 1 := by omega
      rcases hg.succ h hh with htop | hnext
      · omega
      · rw [heq] at hnext
        have := hg.span _ hnext
        exact ⟨_, hnext, by omega, by omega⟩

/-! ## The moves -/

/-- A span leaves its list. -/
def take (g : Layout) (i : ListId) (h : Int) : Layout :=
  { g with
    kind := Function.update g.kind h .held
    list := Function.update g.list i ((g.list i).erase h) }

/-- A held span becomes the first of the free ones of its length. -/
def give (g : Layout) (h : Int) : Layout :=
  { g with
    kind := Function.update g.kind h .free
    list := Function.update g.list (.span (g.len h)) (h :: g.list (.span (g.len h))) }

/-- A held span becomes the first page of a bin. -/
def enter (g : Layout) (h s : Int) : Layout :=
  { g with
    kind := Function.update g.kind h (.page s)
    list := Function.update g.list (.bin s) (h :: g.list (.bin s)) }

/-- A held span becomes a chunk in use. -/
def occupy (g : Layout) (h : Int) : Layout := { g with kind := Function.update g.kind h .chunk }

/-- A chunk in use becomes a held span. -/
def hold (g : Layout) (h : Int) : Layout := { g with kind := Function.update g.kind h .held }

/-- A held span is cut after `k` pages; the rest is held too. -/
def cut (g : Layout) (h k : Int) : Layout :=
  { g with
    len := Function.update (Function.update g.len h k) (h + k) (g.len h - k)
    kind := Function.update g.kind (h + k) .held }

/-- A held span swallows the held span behind it. -/
def join (g : Layout) (h n : Int) : Layout :=
  { g with len := Function.update (Function.update g.len h (g.len h + g.len n)) n 0 }

/-- The heap grows by a held span. -/
def grow (g : Layout) (n : Int) : Layout :=
  { g with
    top := g.top + n
    len := Function.update g.len (g.top + 1) n
    kind := Function.update g.kind (g.top + 1) .held }

/-- Only the lists change, and with them the kinds: the cut into spans stays. -/
lemma Sound.relabel (hg : g.Sound) {kind : Int → Kind} {list : ListId → List Int}
    (hpage : ∀ h s, g.len h ≠ 0 → kind h = .page s →
      1 ≤ s ∧ s ≤ 39 ∧ g.len h = binSpanSize s)
    (hmem : ∀ i h, i.Valid → (h ∈ list i ↔
      g.len h ≠ 0 ∧ home { g with kind := kind, list := list } h = some i)) :
    Sound { g with kind := kind, list := list } :=
  ⟨hg.top_bounds, hg.span, hg.inside, hg.succ, hg.first, hpage, hmem⟩

lemma home_update_of_ne (g : Layout) {x : Int} (hx : x ≠ h) (c : Kind)
    (list : ListId → List Int) :
    home { g with kind := Function.update g.kind h c, list := list } x = g.home x := by
  simp [home, Function.update_of_ne hx]

lemma page_update {c : Kind} (hg : g.Sound)
    (hc : ∀ s, c = .page s → 1 ≤ s ∧ s ≤ 39 ∧ g.len h = binSpanSize s) :
    ∀ x s, g.len x ≠ 0 → Function.update g.kind h c x = .page s →
      1 ≤ s ∧ s ≤ 39 ∧ g.len x = binSpanSize s := by
  intro x s hx hkind
  by_cases hxh : x = h
  · subst hxh
    rw [Function.update_self] at hkind
    exact hc s hkind
  · rw [Function.update_of_ne hxh] at hkind
    exact hg.page x s hx hkind

lemma Sound.take (hg : g.Sound) (hi : i.Valid) (hh : h ∈ g.list i) (hnodup : (g.list i).Nodup) :
    (g.take i h).Sound := by
  refine hg.relabel (page_update hg (by simp)) ?_
  intro j x hj
  by_cases hx : x = h
  · subst hx
    have hxj : j ≠ i → x ∉ g.list j := by
      intro hne hxj
      have h1 := ((hg.mem j x hj).1 hxj).2
      rw [((hg.mem i x hi).1 hh).2] at h1
      exact hne (Option.some.inj h1).symm
    by_cases hji : j = i
    · subst hji
      simp [home, hnodup.mem_erase_iff]
    · simp [home, hji, hxj hji]
  · rw [home_update_of_ne g hx, ← hg.mem j x hj]
    by_cases hji : j = i
    · subst hji
      simp [List.mem_erase_of_ne hx]
    · simp [hji]

/-- A held span put at the front of a list. -/
lemma Sound.put (hg : g.Sound) (hh : g.len h ≠ 0) (hheld : g.kind h = .held) (hi : i.Valid)
    {c : Kind} (hc : ∀ s, c = .page s → 1 ≤ s ∧ s ≤ 39 ∧ g.len h = binSpanSize s)
    (hhome : ∀ list, home { g with kind := Function.update g.kind h c, list := list } h = some i) :
    Sound { g with
      kind := Function.update g.kind h c
      list := Function.update g.list i (h :: g.list i) } := by
  refine hg.relabel (page_update hg hc) ?_
  intro j x hj
  by_cases hx : x = h
  · subst hx
    have hnot : x ∉ g.list j := by
      intro hxj
      have := ((hg.mem j x hj).1 hxj).2
      simp [home, hheld] at this
    rw [hhome]
    by_cases hji : j = i
    · subst hji
      simp [hh]
    · simp [hji, hnot, Ne.symm hji]
  · rw [home_update_of_ne g hx, ← hg.mem j x hj]
    by_cases hji : j = i
    · subst hji
      simp [hx]
    · simp [hji]

lemma Sound.give (hg : g.Sound) (hh : g.len h ≠ 0) (hheld : g.kind h = .held) :
    (g.give h).Sound := by
  have hspan := hg.span h hh
  apply hg.put hh hheld (i := .span (g.len h)) (c := .free)
  · exact ⟨by omega, by omega⟩
  · simp
  · simp [home]

lemma Sound.enter (hg : g.Sound) (hh : g.len h ≠ 0) (hheld : g.kind h = .held) {s : Int}
    (h1 : 1 ≤ s) (h39 : s ≤ 39) (hlen : g.len h = binSpanSize s) : (g.enter h s).Sound := by
  apply hg.put hh hheld (i := .bin s) (c := .page s)
  · exact ⟨by omega, by omega⟩
  · rintro t ht
    obtain rfl : s = t := by simpa using ht
    exact ⟨h1, h39, hlen⟩
  · simp [home]

/-- Between kinds that are in no list nothing else changes. -/
lemma Sound.rekind (hg : g.Sound) (hhome : g.home h = none) {c : Kind} (hc : c = .held ∨ c = .chunk) :
    Sound { g with kind := Function.update g.kind h c } := by
  refine hg.relabel (page_update hg (by rcases hc with rfl | rfl <;> simp)) ?_
  intro j x hj
  rw [hg.mem j x hj]
  by_cases hx : x = h
  · subst hx
    rw [hhome]
    rcases hc with rfl | rfl <;> simp [home]
  · rw [home_update_of_ne g hx]

/-- The lists stay as they are when only held spans change their lengths. -/
lemma Sound.relen (hg : g.Sound) {g' : Layout} (hlist : g'.list = g.list)
    (hold : ∀ x, g.len x ≠ 0 → g.kind x ≠ .held → g'.len x = g.len x ∧ g'.kind x = g.kind x)
    (hnew : ∀ x, g'.len x ≠ 0 → g'.kind x ≠ .held → g.len x ≠ 0 ∧ g.kind x ≠ .held)
    (htop : 0 ≤ g'.top ∧ g'.top ≤ 180218)
    (hspan : ∀ x, g'.len x ≠ 0 →
      1 ≤ x ∧ 1 ≤ g'.len x ∧ g'.len x ≤ 60 ∧ x + g'.len x ≤ g'.top + 1)
    (hinside : ∀ x j, g'.len x ≠ 0 → x < j → j < x + g'.len x → g'.len j = 0)
    (hsucc : ∀ x, g'.len x ≠ 0 → x + g'.len x = g'.top + 1 ∨ g'.len (x + g'.len x) ≠ 0)
    (hfirst : g'.top = 0 ∨ g'.len 1 ≠ 0) : g'.Sound where
  top_bounds := htop
  span := hspan
  inside := hinside
  succ := hsucc
  first := hfirst
  page x s hx hkind := by
    have hheld : g'.kind x ≠ .held := by simp [hkind]
    obtain ⟨hx0, hk0⟩ := hnew x hx hheld
    obtain ⟨hl, hk⟩ := hold x hx0 hk0
    rw [hl]
    exact hg.page x s hx0 (hk ▸ hkind)
  mem i x hi := by
    rw [hlist, hg.mem i x hi]
    have hnone : ∀ g : Layout, g.kind x = .held → g.home x = none := by
      intro g h
      simp [home, h]
    constructor
    · rintro ⟨hx, hhome⟩
      have hheld : g.kind x ≠ .held := fun h => by simp [hnone g h] at hhome
      obtain ⟨hl, hk⟩ := hold x hx hheld
      simp only [home, hl, hk] at hhome ⊢
      exact ⟨hx, hhome⟩
    · rintro ⟨hx, hhome⟩
      have hheld : g'.kind x ≠ .held := fun h => by simp [hnone g' h] at hhome
      obtain ⟨hx0, hk0⟩ := hnew x hx hheld
      obtain ⟨hl, hk⟩ := hold x hx0 hk0
      simp only [home, hl, hk] at hhome ⊢
      exact ⟨hx0, hhome⟩

/-- A span other than `h` lies before it or behind it. -/
lemma Sound.beside (hg : g.Sound) {x : Int} (hh : g.len h ≠ 0) (hx : g.len x ≠ 0) (hne : x ≠ h) :
    x + g.len x ≤ h ∨ h + g.len h ≤ x := by
  rcases lt_or_gt_of_ne hne with hlt | hgt
  · exact .inl (hg.apart hx hh hlt)
  · exact .inr (hg.apart hh hx hgt)

section cut

variable (g h k)

lemma cut_len (x : Int) : (g.cut h k).len x =
    if x = h + k then g.len h - k else if x = h then k else g.len x := by
  simp only [cut, Function.update_apply]

lemma cut_kind (x : Int) : (g.cut h k).kind x = if x = h + k then .held else g.kind x := by
  simp only [cut, Function.update_apply]

end cut

lemma Sound.cut (hg : g.Sound) (hheld : g.kind h = .held) (h0 : 0 < k) (hk : k < g.len h) :
    (g.cut h k).Sound := by
  have hh : g.len h ≠ 0 := by omega
  have hspan := hg.span h hh
  have hrest : g.len (h + k) = 0 := hg.inside h (h + k) hh (by omega) (by omega)
  have hkeep : ∀ x, g.len x ≠ 0 → (g.cut h k).len x ≠ 0 := by
    intro x hx
    rw [cut_len]
    split_ifs <;> omega
  have hcases : ∀ x, (g.cut h k).len x ≠ 0 →
      (x = h ∧ (g.cut h k).len x = k) ∨ (x = h + k ∧ (g.cut h k).len x = g.len h - k) ∨
      (x ≠ h ∧ g.len x ≠ 0 ∧ (g.cut h k).len x = g.len x ∧
        (x + g.len x ≤ h ∨ h + g.len h ≤ x)) := by
    intro x hx
    rw [cut_len] at hx ⊢
    split_ifs at hx ⊢ with h1 h2
    · exact .inr (.inl ⟨h1, rfl⟩)
    · exact .inl ⟨h2, rfl⟩
    · exact .inr (.inr ⟨h2, hx, rfl, hg.beside hh hx h2⟩)
  refine hg.relen rfl ?_ ?_ hg.top_bounds ?_ ?_ ?_ ?_
  · intro x hx hkind
    have h1 : x ≠ h := fun h' => hkind (h' ▸ hheld)
    have h2 : x ≠ h + k := fun h' => hx (h' ▸ hrest)
    simp [cut_len, cut_kind, h1, h2]
  · intro x hx hkind
    rw [cut_kind] at hkind
    split_ifs at hkind with h2
    · exact absurd rfl hkind
    · rcases hcases x hx with ⟨rfl, -⟩ | ⟨h', -⟩ | ⟨-, hx0, -⟩
      · exact ⟨hh, hkind⟩
      · exact absurd h' h2
      · exact ⟨hx0, hkind⟩
  · intro x hx
    have htop : (g.cut h k).top = g.top := rfl
    rcases hcases x hx with ⟨h1, h2⟩ | ⟨h1, h2⟩ | ⟨-, hx0, h2, -⟩
    · omega
    · omega
    · have := hg.span x hx0
      omega
  · intro x j hx hxj hj
    by_contra hcon
    rcases hcases x hx with ⟨h1, h2⟩ | ⟨h1, h2⟩ | ⟨-, hx0, h2, h3⟩ <;>
      rcases hcases j hcon with ⟨h4, -⟩ | ⟨h4, -⟩ | ⟨-, hj0, -, h5⟩
    · omega
    · omega
    · have := hg.span j hj0
      omega
    · omega
    · omega
    · have := hg.span j hj0
      omega
    · omega
    · omega
    · exact hj0 (hg.inside x j hx0 hxj (by omega))
  · intro x hx
    have htop : (g.cut h k).top = g.top := rfl
    rcases hcases x hx with ⟨h1, h2⟩ | ⟨h1, h2⟩ | ⟨-, hx0, h2, -⟩
    · right
      rw [h2, h1, cut_len, if_pos rfl]
      omega
    · have hend : x + (g.cut h k).len x = h + g.len h := by omega
      rw [hend]
      exact (hg.succ h hh).imp_right (hkeep _)
    · rw [h2]
      exact (hg.succ x hx0).imp_right (hkeep _)
  · exact hg.first.imp_right (hkeep _)

section join

variable (g h n)

lemma join_len (x : Int) : (g.join h n).len x =
    if x = n then 0 else if x = h then g.len h + g.len n else g.len x := by
  simp only [join, Function.update_apply]

end join

lemma Sound.join (hg : g.Sound) (hh : g.len h ≠ 0) (hn : g.len n ≠ 0)
    (hheld : g.kind h = .held) (hheld' : g.kind n = .held) (hadj : h + g.len h = n)
    (hle : g.len h + g.len n ≤ 60) : (g.join h n).Sound := by
  have hspan := hg.span h hh
  have hspan' := hg.span n hn
  have hne : h ≠ n := by omega
  have hkeep : ∀ x, g.len x ≠ 0 → x ≠ n → (g.join h n).len x ≠ 0 := by
    intro x hx hxn
    rw [join_len]
    split_ifs <;> omega
  have hcases : ∀ x, (g.join h n).len x ≠ 0 →
      (x = h ∧ (g.join h n).len x = g.len h + g.len n) ∨
      (x ≠ h ∧ g.len x ≠ 0 ∧ (g.join h n).len x = g.len x ∧
        (x + g.len x ≤ h ∨ n + g.len n ≤ x)) := by
    intro x hx
    rw [join_len] at hx ⊢
    split_ifs at hx ⊢ with h1 h2
    · exact absurd rfl hx
    · exact .inl ⟨h2, rfl⟩
    · have := hg.beside hh hx h2
      have := hg.beside hn hx h1
      have := hg.span x hx
      exact .inr ⟨h2, hx, rfl, by omega⟩
  refine hg.relen rfl ?_ ?_ hg.top_bounds ?_ ?_ ?_ ?_
  · intro x hx hkind
    have h1 : x ≠ h := fun h' => hkind (h' ▸ hheld)
    have h2 : x ≠ n := fun h' => hkind (h' ▸ hheld')
    rw [join_len, if_neg h2, if_neg h1]
    exact ⟨rfl, rfl⟩
  · intro x hx hkind
    rcases hcases x hx with ⟨rfl, -⟩ | ⟨-, hx0, -⟩
    · exact ⟨hh, hkind⟩
    · exact ⟨hx0, hkind⟩
  · intro x hx
    have htop : (g.join h n).top = g.top := rfl
    rcases hcases x hx with ⟨h1, h2⟩ | ⟨-, hx0, h2, -⟩
    · omega
    · have := hg.span x hx0
      omega
  · intro x j hx hxj hj
    by_contra hcon
    rcases hcases x hx with ⟨h1, h2⟩ | ⟨-, hx0, h2, h3⟩ <;>
      rcases hcases j hcon with ⟨h4, -⟩ | ⟨-, hj0, -, h5⟩
    · omega
    · have := hg.span j hj0
      omega
    · omega
    · exact hj0 (hg.inside x j hx0 hxj (by omega))
  · intro x hx
    rcases hcases x hx with ⟨h1, h2⟩ | ⟨h1, hx0, h2, h3⟩
    · have hend : x + (g.join h n).len x = n + g.len n := by omega
      rw [hend]
      exact (hg.succ n hn).imp_right fun h' => hkeep _ h' (by omega)
    · rw [h2]
      refine (hg.succ x hx0).imp_right fun h' => hkeep _ h' ?_
      have := hg.span x hx0
      omega
  · exact hg.first.imp_right fun h' => hkeep _ h' (by omega)

section grow

variable (g n)

lemma grow_len (x : Int) : (g.grow n).len x = if x = g.top + 1 then n else g.len x := by
  simp only [grow, Function.update_apply]

lemma grow_kind (x : Int) : (g.grow n).kind x = if x = g.top + 1 then .held else g.kind x := by
  simp only [grow, Function.update_apply]

end grow

/-- Nothing starts behind the last handle. -/
lemma Sound.len_top (hg : g.Sound) : g.len (g.top + 1) = 0 := by
  by_contra hcon
  have := hg.span _ hcon
  omega

lemma Sound.grow (hg : g.Sound) (h1 : 1 ≤ n) (h60 : n ≤ 60) (htop : g.top + n ≤ 180218) :
    (g.grow n).Sound := by
  have hzero := hg.len_top
  have hbounds := hg.top_bounds
  have hkeep : ∀ x, g.len x ≠ 0 → (g.grow n).len x = g.len x ∧ x ≠ g.top + 1 := by
    intro x hx
    have hne : x ≠ g.top + 1 := fun h' => hx (h' ▸ hzero)
    rw [grow_len, if_neg hne]
    exact ⟨rfl, hne⟩
  have hcases : ∀ x, (g.grow n).len x ≠ 0 → (x = g.top + 1 ∧ (g.grow n).len x = n) ∨
      (g.len x ≠ 0 ∧ (g.grow n).len x = g.len x ∧ x + g.len x ≤ g.top + 1) := by
    intro x hx
    rw [grow_len] at hx ⊢
    split_ifs at hx ⊢ with h1
    · exact .inl ⟨h1, rfl⟩
    · exact .inr ⟨hx, rfl, (hg.span x hx).2.2.2⟩
  have htop' : (g.grow n).top = g.top + n := rfl
  refine hg.relen rfl ?_ ?_ ⟨by omega, by omega⟩ ?_ ?_ ?_ ?_
  · intro x hx hkind
    obtain ⟨hl, hne⟩ := hkeep x hx
    rw [grow_kind, if_neg hne]
    exact ⟨hl, rfl⟩
  · intro x hx hkind
    rcases hcases x hx with ⟨rfl, -⟩ | ⟨hx0, -⟩
    · rw [grow_kind, if_pos rfl] at hkind
      exact absurd rfl hkind
    · rw [grow_kind, if_neg (hkeep x hx0).2] at hkind
      exact ⟨hx0, hkind⟩
  · intro x hx
    rcases hcases x hx with ⟨h1, h2⟩ | ⟨hx0, h2, -⟩
    · omega
    · have := hg.span x hx0
      omega
  · intro x j hx hxj hj
    by_contra hcon
    rcases hcases x hx with ⟨h1, h2⟩ | ⟨hx0, h2, h3⟩ <;>
      rcases hcases j hcon with ⟨h4, -⟩ | ⟨hj0, -, h5⟩
    · omega
    · have := hg.span j hj0
      omega
    · omega
    · exact hj0 (hg.inside x j hx0 hxj (by omega))
  · intro x hx
    rcases hcases x hx with ⟨h1, h2⟩ | ⟨hx0, h2, -⟩
    · left
      omega
    · right
      rw [h2]
      rcases hg.succ x hx0 with hend | hend
      · rw [hend, grow_len, if_pos rfl]
        omega
      · rw [(hkeep _ hend).1]
        exact hend
  · right
    rcases hg.first with hfirst | hfirst
    · rw [grow_len, if_pos (by omega)]
      omega
    · rw [(hkeep 1 hfirst).1]
      exact hfirst

/-! ## What is in use -/

def Occupied (g : Layout) (h : Int) : Prop :=
  g.len h ≠ 0 ∧ (g.kind h = .chunk ∨ ∃ s, g.kind h = .page s)

/-- The length and the kind of a span in use. -/
def use (g : Layout) (h : Int) : Option (Int × Kind) :=
  if g.len h = 0 then none
  else
    match g.kind h with
    | .held => none
    | .free => none
    | .chunk => some (g.len h, .chunk)
    | .page s => some (g.len h, .page s)

lemma use_eq_some {c : Kind} :
    g.use h = some (n, c) ↔ g.Occupied h ∧ g.len h = n ∧ g.kind h = c := by
  unfold use Occupied
  by_cases hlen : g.len h = 0
  · simp [hlen]
  · cases hkind : g.kind h <;> simp [hlen]

lemma use_of_occupied (hh : g.Occupied h) : g.use h = some (g.len h, g.kind h) :=
  use_eq_some.2 ⟨hh, rfl, rfl⟩

lemma use_of_held (hheld : g.kind h = .held) : g.use h = none := by
  simp [use, hheld]

lemma use_of_len (hlen : g.len h = 0) : g.use h = none := by
  simp [use, hlen]

/-- The same chunks are in use, and the bins hold the same pages in the same order. -/
structure Same (g g' : Layout) : Prop where
  use : ∀ h, g'.use h = g.use h
  bins : ∀ s, g'.list (.bin s) = g.list (.bin s)

lemma Same.refl (g : Layout) : Same g g := ⟨fun _ => rfl, fun _ => rfl⟩

lemma Same.trans {g' g'' : Layout} (h : Same g g') (h' : Same g' g'') : Same g g'' :=
  ⟨fun x => (h'.use x).trans (h.use x), fun s => (h'.bins s).trans (h.bins s)⟩

lemma Same.occupied {g' : Layout} (hsame : Same g g') (hh : g.Occupied h) :
    g'.Occupied h ∧ g'.len h = g.len h ∧ g'.kind h = g.kind h :=
  use_eq_some.1 ((hsame.use h).trans (use_of_occupied hh))

/-- The use of a span that becomes of another kind. -/
lemma use_update_kind (c : Kind) (list : ListId → List Int) :
    use { g with kind := Function.update g.kind h c, list := list } =
      Function.update g.use h (use { g with kind := fun _ => c } h) := by
  funext x
  by_cases hxh : x = h
  · simp [hxh, use]
  · simp [hxh, use]

lemma same_take (hfree : g.kind h = .free) : Same g (g.take (.span k) h) where
  use x := by
    rw [take, use_update_kind]
    by_cases hxh : x = h
    · simp [hxh, use, hfree]
    · simp [hxh]
  bins s := by simp [take]

lemma same_give (hheld : g.kind h = .held) : Same g (g.give h) where
  use x := by
    rw [give, use_update_kind]
    by_cases hxh : x = h
    · simp [hxh, use, hheld]
    · simp [hxh]
  bins s := by simp [give]

lemma same_cut (hg : g.Sound) (hheld : g.kind h = .held) (h0 : 0 < k) (hk : k < g.len h) :
    Same g (g.cut h k) where
  use x := by
    have hrest : g.len (h + k) = 0 := hg.inside h (h + k) (by omega) (by omega) (by omega)
    by_cases hxk : x = h + k
    · rw [hxk, use_of_len hrest, use_of_held]
      simp [cut_kind]
    · by_cases hxh : x = h
      · rw [hxh, use_of_held hheld, use_of_held]
        simpa [cut_kind] using fun _ => hheld
      · simp [use, cut_len, cut_kind, hxk, hxh]
  bins s := rfl

lemma same_join (hheld : g.kind h = .held) (hheld' : g.kind n = .held) : Same g (g.join h n) where
  use x := by
    by_cases hxn : x = n
    · rw [hxn, use_of_held hheld', use_of_held]
      exact hheld'
    · by_cases hxh : x = h
      · rw [hxh, use_of_held hheld, use_of_held]
        exact hheld
      · simp only [use, join_len, if_neg hxn, if_neg hxh]
        rfl
  bins s := rfl

lemma same_grow (hg : g.Sound) : Same g (g.grow n) where
  use x := by
    by_cases hx : x = g.top + 1
    · rw [hx, use_of_len hg.len_top, use_of_held]
      simp [grow_kind]
    · simp [use, grow_len, grow_kind, hx]
  bins s := rfl

end Layout

end CoplusLean.Arena
