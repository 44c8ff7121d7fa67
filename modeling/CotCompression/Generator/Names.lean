import Mathlib.Data.List.Basic
import Mathlib.Data.List.Nodup
import Mathlib.Tactic.Common
import CotCompression.Shared.Text

set_option autoImplicit false

namespace CotCompression

-- NODE_NAMES
def nodeNames : List Text :=
  [
    "apples", "bananas", "oranges", "grapes", "lemons", "peaches", "mangoes", "cherries", "plums", "kiwis",
    "cats", "dogs", "birds", "fish", "rabbits", "horses", "turtles", "eagles", "wolves", "foxes",
    "roses", "tulips", "daisies", "lilies", "violets", "orchids", "irises", "poppies", "lotuses", "jasmines",
    "rubies", "sapphires", "emeralds", "diamonds", "pearls", "opals", "garnets", "topazes", "amethysts", "crystals",
    "cookies", "cakes", "muffins", "donuts", "pies", "breads", "bagels", "waffles", "pancakes", "cupcakes",
    "buttons", "ribbons", "beads", "patches", "threads", "needles", "hooks", "pins", "clasps", "zippers",
    "guitars", "pianos", "drums", "violins", "flutes", "trumpets", "harps", "bells", "cellos", "tubas",
    "oaks", "pines", "maples", "elms", "birches", "cedars", "willows", "spruces", "beeches", "aspens",
    "pennies", "nickels", "dimes", "quarters", "tokens", "medallions", "ducats", "crowns", "guineas", "shillings",
    "marbles", "blocks", "dolls", "kites", "puzzles", "tops", "yoyos", "balls", "dice", "cards",
    "carrots", "potatoes", "tomatoes", "onions", "peppers", "spinach", "broccoli", "celery", "radishes", "turnips",
    "starfish", "lobsters", "shrimps", "oysters", "clams", "octopuses", "seahorses", "jellyfish", "crabs", "squids",
    "shirts", "jackets", "scarves", "gloves", "boots", "sandals", "sweaters", "vests", "socks", "hats",
    "chairs", "tables", "sofas", "desks", "shelves", "lamps", "mirrors", "benches", "stools", "cabinets",
    "rackets", "helmets", "bats", "gliders", "paddles", "skates", "surfboards", "javelins", "hurdles", "batons",
    "pencils", "erasers", "rulers", "notebooks", "markers", "folders", "staplers", "scissors", "envelopes", "stickers",
    "trucks", "buses", "trains", "planes", "boats", "scooters", "sleds", "rafts", "canoes", "wagons",
    "cardamoms", "cloves", "nutmegs", "cinnamons", "gingers", "saffrons", "vanillas", "curcumas", "oreganos", "thymes",
    "silks", "cottons", "linens", "denims", "wools", "velvets", "satins", "flannels", "tweeds", "chiffons",
    "conchs", "cowries", "scallops", "nautiluses", "whelks", "abalones", "turbans", "murexes", "tritons", "cones"].map Text.lit

def letters : Text := Text.lit "ABCDEFGHIJKLMNOPQRSTUVWXYZ"

-- _VARIABLES
def variableNames : List Text := letters.flatMap fun a => letters.map fun b => [a, b]

theorem nodeNames_length : nodeNames.length = 200 := by decide +kernel

theorem variableNames_length : variableNames.length = 676 := by decide +kernel

theorem nodeNames_lower : ∀ name ∈ nodeNames, name ≠ [] ∧ ∀ c ∈ name, c.isLower = true := by
  decide +kernel

theorem nodeNames_nodup : nodeNames.Nodup := by
  have distinct : (nodeNames.map fun name => name.foldl (fun code c => 128 * code + c.toNat) 0).Nodup := by
    decide +kernel
  exact distinct.of_map _

theorem variableNames_upper : ∀ name ∈ variableNames, name.length = 2 ∧ ∀ c ∈ name, c.isUpper = true := by
  have upper : ∀ c ∈ letters, c.isUpper = true := by decide
  intro name member
  simp only [variableNames, List.mem_flatMap, List.mem_map] at member
  obtain ⟨a, ha, b, hb, rfl⟩ := member
  simp [upper a ha, upper b hb]

theorem variableNames_nodup : variableNames.Nodup := by
  have distinct : letters.Nodup := by decide
  refine List.nodup_flatMap.mpr ⟨fun a _ => distinct.map ?_, distinct.imp ?_⟩
  · intro b c same
    simpa using same
  · intro a b different name left right
    simp only [List.mem_map] at left right
    obtain ⟨_, _, rfl⟩ := left
    obtain ⟨_, _, same⟩ := right
    simp only [List.cons.injEq] at same
    exact different same.1.symm

end CotCompression
