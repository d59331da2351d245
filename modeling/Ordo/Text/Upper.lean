import Ordo.Text.Lower

namespace Ordo.Text

/-!
# Upper case

The upper-case form of a text, for every script.  The capital of a small letter is the one whose
small letter it is, with some exceptions; some letters and ligatures become several characters.

* `upperExceptions` — the letters with another capital;
* `upperExpansions` — the letters that become several characters;
* `upper` — the upper-case form of a text.
-/

/-- Small letters whose capital has another small letter. -/
def upperExceptions : List (Nat × Nat) :=
  [
    (181,924),(305,73),(383,83),(453,452),(456,455),(459,458),(498,497),(837,921),(962,931),
    (976,914),(977,920),(981,934),(982,928),(1008,922),(1009,929),(1013,917),(7296,1042),
    (7297,1044),(7298,1054),(7299,1057),(7300,1058),(7301,1058),(7302,1066),(7303,1122),
    (7304,42570),(7835,7776),(8126,921)
  ]

/-- Greek letters with an iota below, which becomes a letter of its own: the first of sixteen
    codes, with the capital of the first; the last eight are capitals with the same letters. -/
def iotaRuns : List (Nat × Nat) := [(8064, 7944), (8080, 7976), (8096, 8040)]

/-- Letters that become several characters. -/
def upperExpansions : List (Nat × List Nat) :=
  (iotaRuns.flatMap fun (first, capital) =>
    (List.range 16).map fun k => (first + k, [capital + k % 8, 921])) ++
  [
    (223, [83, 83]), (329, [700, 78]), (496, [74, 780]), (912, [921, 776, 769]),
    (944, [933, 776, 769]), (1415, [1333, 1362]), (7830, [72, 817]), (7831, [84, 776]),
    (7832, [87, 778]), (7833, [89, 778]), (7834, [65, 702]), (8016, [933, 787]),
    (8018, [933, 787, 768]), (8020, [933, 787, 769]), (8022, [933, 787, 834]), (8114, [8122, 921]),
    (8115, [913, 921]), (8116, [902, 921]), (8118, [913, 834]), (8119, [913, 834, 921]),
    (8124, [913, 921]), (8130, [8138, 921]), (8131, [919, 921]), (8132, [905, 921]),
    (8134, [919, 834]), (8135, [919, 834, 921]), (8140, [919, 921]), (8146, [921, 776, 768]),
    (8147, [921, 776, 769]), (8150, [921, 834]), (8151, [921, 776, 834]), (8162, [933, 776, 768]),
    (8163, [933, 776, 769]), (8164, [929, 787]), (8166, [933, 834]), (8167, [933, 776, 834]),
    (8178, [8186, 921]), (8179, [937, 921]), (8180, [911, 921]), (8182, [937, 834]),
    (8183, [937, 834, 921]), (8188, [937, 921]), (64256, [70, 70]), (64257, [70, 73]),
    (64258, [70, 76]), (64259, [70, 70, 73]), (64260, [70, 70, 76]), (64261, [83, 84]),
    (64262, [83, 84]), (64275, [1348, 1350]), (64276, [1348, 1333]), (64277, [1348, 1339]),
    (64278, [1358, 1350]), (64279, [1348, 1341])
  ]

/-- The capital of a small letter beyond the first 128 characters. -/
def upperCode (n : Nat) : Nat :=
  match upperExceptions.lookup n with
  | some capital => capital
  | none =>
      match lowerRuns.find? fun (first, last, gap, small) =>
          inRun small (small + (last - first)) gap n with
      | some (first, _, _, small) => first + (n - small)
      | none => n

/-- The upper-case form of a character. -/
def upperChar (c : Char) : List Char :=
  if c.toNat < 128 then [c.toUpper]
  else match upperExpansions.lookup c.toNat with
    | some codes => codes.map Char.ofNat
    | none => [Char.ofNat (upperCode c.toNat)]

/-- The upper-case form of a text. -/
def upper (cs : List Char) : List Char := cs.flatMap upperChar

end Ordo.Text
