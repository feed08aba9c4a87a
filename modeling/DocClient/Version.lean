/-!
The version of this library.
-/
namespace DocClient

def version : String := "0.1.0"

end DocClient
