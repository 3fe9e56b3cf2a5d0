import Legalese.Resolution

/-!
# Sample resolutions

Five complete texts, and the inventory one also as a tree with numbers of one's own.
-/

namespace Legalese

structure Sample where
  name : String
  source : String

namespace Sample

def helloWorld : Sample where
  name := "hello_world"
  source := "title whereas resolved publish \"Hello, World!\""

def greeting : Sample where
  name := "greeting"
  source := "\n".intercalate
    ["A Resolution Concerning Salutations",
      "",
      "WHEREAS the Customary Greeting (hereinafter Greeting) is \"Hello, World!\":",
      "now, therefore, be it",
      "",
      "RESOLVED, that this assembly publish the Greeting.",
      ""]

def inventory : Sample where
  name := "inventory"
  source := "\n".intercalate
    ["A Resolution on the Counting of Widgets",
      "",
      "WHEREAS the Widgets held in Stock (hereinafter Stock) number ninety-nine (99);",
      "",
      "WHEREAS each Shipment (hereinafter Shipment) carries twelve (12) widgets;",
      "",
      "RESOLVED, that Stock assume Stock less Shipment;",
      "",
      "RESOLVED, that this assembly publish Stock.",
      ""]

def arithmetic : Sample where
  name := "arithmetic"
  source := "\n".intercalate
    ["A Resolution on Sundry Sums",
      "",
      "WHEREAS the Base Amount (hereinafter Base) is seven (7);",
      "",
      "RESOLVED, that this assembly publish the sum of Base and three (3);",
      "RESOLVED, that this assembly publish the product of Base and Base;",
      "RESOLVED, that this assembly publish Base squared;",
      "RESOLVED, that this assembly publish twice Base cubed;",
      "RESOLVED, that this assembly publish the quotient of Base and two (2);",
      "RESOLVED, that this assembly publish the remainder of Base and two (2);",
      "RESOLVED, that this assembly publish Base less ten (10).",
      ""]

def conditional : Sample where
  name := "conditional"
  source := "\n".intercalate
    ["A Resolution on the Adequacy of Supplies",
      "",
      "WHEREAS the Supplies on Hand (hereinafter Supplies) are fifty (50);",
      "",
      "WHEREAS the Minimum Reserve (hereinafter Reserve) is twenty (20);",
      "",
      "RESOLVED, that if Supplies exceeds Reserve, this assembly publish \"Supplies are adequate\";",
      "",
      "RESOLVED, that if Supplies equals Reserve, this assembly publish \"Supplies are at the minimum\";",
      "",
      "RESOLVED, that if Supplies exceeds twice Reserve, Supplies assume Supplies less Reserve;",
      "",
      "RESOLVED, that this assembly publish Supplies.",
      ""]

def all : List Sample := [helloWorld, greeting, inventory, arithmetic, conditional]

def find? (name : String) : Option Sample := all.find? (·.name == name)

end Sample

/-- The inventory with a stock and a shipment of given sizes. -/
def inventoryOf (stock shipment : Int) : Resolution where
  recitals := [⟨"Stock", .integer stock⟩, ⟨"Shipment", .integer shipment⟩]
  actions :=
    [.assume "Stock" (.less (.name "Stock") (.name "Shipment")), .publish (.name "Stock")]

end Legalese
