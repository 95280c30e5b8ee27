import TileRace.Game.Check
import TileRace.Proofs.Board.Connected
import TileRace.Proofs.Board.Runs

namespace TileRace

open Crossword

theorem firstRepeated?_eq_none_iff {seen l : List String} :
    firstRepeated? seen l = none ↔ l.Nodup ∧ ∀ w ∈ l, w ∉ seen := by
  induction l generalizing seen with
  | nil => simp [firstRepeated?]
  | cons w l ih =>
    rw [firstRepeated?]
    split
    · rename_i hw
      simp [hw]
    · rename_i hw
      rw [ih, List.nodup_cons]
      simp only [List.mem_cons, not_or]
      constructor
      · rintro ⟨hl, h⟩
        refine ⟨⟨fun hm => (h w hm).1 rfl, hl⟩, fun v hv => ?_⟩
        obtain rfl | hv := hv
        · exact hw
        · exact (h v hv).2
      · rintro ⟨⟨hn, hl⟩, h⟩
        exact ⟨hl, fun v hv => ⟨fun he => hn (he ▸ hv), h v (.inr hv)⟩⟩

namespace Rules

variable {r : Rules} {d : Dictionary} {b : Board}

theorem checkWords_eq_ok_iff {words : List String} : r.checkWords d words = .ok () ↔
    (∀ w ∈ words, r.minLength.toNat ≤ w.length) ∧
      (r.allowDuplicates = false → words.Nodup) ∧ ∀ w ∈ words, d.accepts w := by
  rw [checkWords]
  split
  · rename_i w hw
    have hshort : w.length < r.minLength.toNat := by simpa using List.find?_some hw
    refine ⟨fun h => (nomatch h), fun h => ?_⟩
    exact (Nat.not_lt.2 (h.1 w (List.mem_of_find?_eq_some hw)) hshort).elim
  · rename_i hlong
    have hlong : ∀ w ∈ words, r.minLength.toNat ≤ w.length := by simpa using hlong
    split
    · rename_i w hw
      refine ⟨fun h => (nomatch h), fun h => ?_⟩
      split at hw
      · cases hw
      · rename_i hdup
        rw [firstRepeated?_eq_none_iff.2 ⟨h.2.1 (by simpa using hdup), by simp⟩] at hw
        cases hw
    · rename_i hw
      have honce : r.allowDuplicates = false → words.Nodup := by
        intro hdup
        rw [if_neg (by simp [hdup])] at hw
        exact (firstRepeated?_eq_none_iff.1 hw).1
      split
      · rename_i hvalid
        rw [List.filter_eq_nil_iff] at hvalid
        exact ⟨fun _ => ⟨hlong, honce, by simpa using hvalid⟩, fun _ => rfl⟩
      · rename_i hinvalid
        refine ⟨fun h => (nomatch h), fun h => (hinvalid ?_).elim⟩
        exact List.filter_eq_nil_iff.2 (by simpa using h.2.2)

theorem check_eq_ok_iff (hb : b.Coherent) : r.check d b = .ok () ↔ b.Deserving r d := by
  have hwords : r.checkWords d b.words = .ok () ↔
      (∀ dir c word, Run b.placed dir c word → r.minLength.toNat ≤ word.toList.length) ∧
      (r.allowDuplicates = false → ∀ dir c dir' c' word,
        Run b.placed dir c word → Run b.placed dir' c' word → dir = dir' ∧ c = c') ∧
      ∀ dir c word, Run b.placed dir c word → d.accepts word := by
    rw [checkWords_eq_ok_iff, hb.words_nodup_iff]
    simp only [hb.mem_words, forall_exists_index, String.length_toList]
    refine and_congr ⟨fun h _ _ w => h w _ _, fun h w _ _ => h _ _ w⟩ (and_congr_right fun _ => ?_)
    exact ⟨fun h _ _ w => h w _ _, fun h w _ _ => h _ _ w⟩
  have hgroup := hb.isSingleGroup_iff
  rw [check]
  split
  · rename_i hu
    refine ⟨fun h => (nomatch h), fun h => ?_⟩
    have := hb.hand_eq_nil_iff.1 h.hand
    omega
  split
  · rename_i hg
    refine ⟨fun h => (nomatch h), fun h => ?_⟩
    rw [hgroup.2 ⟨h.hand, h.placed, h.crossword.connected⟩] at hg
    cases hg
  · rename_i hg
    obtain ⟨hhand, hplaced, hconnected⟩ := hgroup.1 (by simpa using hg)
    rw [hwords]
    constructor
    · rintro ⟨hlong, honce, haccepted⟩
      exact ⟨hhand, hplaced, hconnected, hlong, haccepted, honce⟩
    · intro h
      exact ⟨h.crossword.long, h.crossword.once, h.crossword.accepted⟩

end Rules

end TileRace
