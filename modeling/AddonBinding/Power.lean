namespace AddonBinding

abbrev pow2 (n : Nat) : Nat :=
  Nat.pow 2 n

theorem pow2_pos (n : Nat) : 0 < pow2 n :=
  Nat.pow_pos (by decide)

abbrev pow10 (n : Nat) : Nat :=
  Nat.pow 10 n

theorem pow10_pos (n : Nat) : 0 < pow10 n :=
  Nat.pow_pos (by decide)

end AddonBinding
